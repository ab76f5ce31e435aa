import Teamspeak.Core.Rows.Turns
import Teamspeak.Core.Token

/-!
# The fields of a row

What a row inherits is decided by its fields: `fields tokens` holds the last token of
each.  A row that inherits has the fields of its own part over those of the row before
(`get?_fields_resolveRow`).

`headName` cuts a line into its name and what follows (`line_eq_named`), as `parseCommand`
does when the line starts with that name (`parseCommand_named`).
-/

namespace Teamspeak

/-! ### Fields -/

/-- The last token of each field. -/
def fields (tokens : List Str) : InsertionMap Str Str :=
  .setAll .empty (tokens.map fun token => (fieldName token, token))

theorem lastPerField_eq (tokens : List Str) :
    lastPerField tokens = (fields tokens).entries.map Prod.snd := by
  rw [lastPerField, fields, InsertionMap.setAll, List.foldl_map]

theorem mem_of_get?_setAll {m : InsertionMap Str Str} {tokens : List Str} {k token : Str}
    (h : (m.setAll (tokens.map fun t => (fieldName t, t))).get? k = some token) :
    (token ∈ tokens ∧ fieldName token = k) ∨ m.get? k = some token := by
  induction tokens generalizing m with
  | nil => exact Or.inr h
  | cons t tokens ih =>
    rw [List.map_cons, InsertionMap.setAll_cons] at h
    rcases ih h with ⟨hmem, hfield⟩ | h
    · exact Or.inl ⟨List.mem_cons_of_mem _ hmem, hfield⟩
    · rw [InsertionMap.get?_set] at h
      split at h
      · rename_i hk
        obtain rfl := Option.some.inj h
        exact Or.inl ⟨List.mem_cons_self, hk⟩
      · exact Or.inr h

/-- A field holds a token of its own name. -/
theorem mem_of_get?_fields {tokens : List Str} {k token : Str}
    (h : (fields tokens).get? k = some token) : token ∈ tokens ∧ fieldName token = k :=
  (mem_of_get?_setAll h).resolve_right fun h => by cases h

theorem fieldName_of_mem_entries {tokens : List Str} {e : Str × Str}
    (h : e ∈ (fields tokens).entries) : fieldName e.2 = e.1 :=
  (mem_of_get?_fields (InsertionMap.mem_entries.mp h)).2

theorem mem_of_mem_lastPerField {tokens : List Str} {token : Str}
    (h : token ∈ lastPerField tokens) : token ∈ tokens := by
  rw [lastPerField_eq] at h
  obtain ⟨e, he, rfl⟩ := List.mem_map.mp h
  exact (mem_of_get?_fields (InsertionMap.mem_entries.mp he)).1

/-- What a row inherits is an overlay of fields. -/
theorem resolveRow_lastPerField (previous tokens : List Str) :
    resolveRow (lastPerField previous) tokens =
      ((fields previous).overlay (tokens.map fun token => (fieldName token, token))).map
        Prod.snd := by
  have hnames : (tokens.map fun token => (fieldName token, token)).map Prod.fst =
      tokens.map fieldName := by
    rw [List.map_map]
    rfl
  rw [resolveRow, lastPerField_eq, InsertionMap.overlay, List.map_append, hnames, List.filter_map,
    List.map_map]
  congr 1
  · congr 1
    refine List.filter_congr fun e he => ?_
    rw [Function.comp_apply, fieldName_of_mem_entries he, decide_eq_decide]
  · exact (List.map_id tokens).symm

/-- **The fields of a row that inherits**: those of its own part, over those of the row
before. -/
theorem get?_fields_resolveRow (previous tokens : List Str) (k : Str) :
    (fields (resolveRow (lastPerField previous) tokens)).get? k =
      ((fields tokens).get? k).or ((fields previous).get? k) := by
  have hentries : (((fields previous).overlay
      (tokens.map fun token => (fieldName token, token))).map Prod.snd).map
        (fun token => (fieldName token, token)) =
      (fields previous).overlay (tokens.map fun token => (fieldName token, token)) := by
    rw [List.map_map]
    refine (List.map_congr_left fun e he => ?_).trans (List.map_id _)
    rcases List.mem_append.mp he with he | he
    · exact Prod.ext (fieldName_of_mem_entries (List.mem_of_mem_filter he)) rfl
    · obtain ⟨token, -, rfl⟩ := List.mem_map.mp he
      rfl
  rw [resolveRow_lastPerField, fields, hentries, InsertionMap.get?_setAll_overlay,
    InsertionMap.get?_setAll]
  rfl

theorem mem_resolveRow {previous tokens : List Str} {token : Str}
    (h : token ∈ resolveRow previous tokens) : token ∈ previous ∨ token ∈ tokens :=
  (List.mem_append.mp h).imp_left List.mem_of_mem_filter

/-- What holds of the tokens of every part holds of those of every row. -/
theorem forall_mem_inheritedTokens {P : Str → Prop} {previous : List Str} {own : List (List Str)}
    (hprevious : ∀ token ∈ previous, P token) (hown : ∀ tokens ∈ own, ∀ token ∈ tokens, P token) :
    ∀ tokens ∈ inheritedTokens previous own, ∀ token ∈ tokens, P token := by
  induction own generalizing previous with
  | nil => exact fun tokens h => absurd h List.not_mem_nil
  | cons tokens own ih =>
    have hrow : ∀ token ∈ resolveRow previous tokens, P token := fun token h =>
      (mem_resolveRow h).elim (hprevious token) (hown tokens List.mem_cons_self token)
    rw [inheritedTokens, List.forall_mem_cons]
    refine ⟨hrow, ih (fun token h => hrow token (mem_of_mem_lastPerField h)) ?_⟩
    exact fun tokens h => hown tokens (List.mem_cons_of_mem _ h)

theorem forall_mem_rowTokens {P : Str → Prop} {line : Str}
    (hown : ∀ tokens ∈ ownTokens line, ∀ token ∈ tokens, P token) :
    ∀ tokens ∈ rowTokens line, ∀ token ∈ tokens, P token := by
  intro tokens h
  rcases List.mem_append.mp h with h | h
  · exact forall_mem_inheritedTokens (fun token h => absurd h List.not_mem_nil) hown tokens
      (List.mem_of_mem_take h)
  · exact hown tokens (List.mem_of_mem_drop h)

/-- A row has tokens where its part has. -/
theorem ne_nil_of_mem_rowTokens {line : Str} (hown : ∀ tokens ∈ ownTokens line, tokens ≠ []) :
    ∀ tokens ∈ rowTokens line, tokens ≠ [] := by
  have hinherited : ∀ (own : List (List Str)) (previous : List Str), (∀ tokens ∈ own, tokens ≠ []) →
      ∀ tokens ∈ inheritedTokens previous own, tokens ≠ [] := by
    intro own
    induction own with
    | nil => exact fun _ _ tokens h => absurd h List.not_mem_nil
    | cons tokens own ih =>
      intro previous hown
      rw [List.forall_mem_cons] at hown
      rw [inheritedTokens, List.forall_mem_cons]
      exact ⟨List.append_ne_nil_of_right_ne_nil _ hown.1, ih _ hown.2⟩
  intro tokens h
  rcases List.mem_append.mp h with h | h
  · exact hinherited _ _ hown tokens (List.mem_of_mem_take h)
  · exact hown tokens (List.mem_of_mem_drop h)

/-! ### The row before -/

theorem getElem?_inheritedTokens_succ {previous : List Str} {own : List (List Str)} {i : Nat}
    {before tokens : List Str} (hbefore : (inheritedTokens previous own)[i]? = some before)
    (htokens : own[i + 1]? = some tokens) :
    (inheritedTokens previous own)[i + 1]? = some (resolveRow (lastPerField before) tokens) := by
  induction own generalizing previous i with
  | nil => cases htokens
  | cons first own ih =>
    rw [inheritedTokens] at hbefore ⊢
    rw [List.getElem?_cons_succ] at htokens ⊢
    cases i with
    | zero =>
      obtain rfl := Option.some.inj hbefore
      cases own with
      | nil => cases htokens
      | cons next own =>
        obtain rfl := Option.some.inj htokens
        rfl
    | succ i => exact ih hbefore htokens

theorem getElem?_inheritedTokens_zero {own : List (List Str)} {tokens : List Str}
    (htokens : own[0]? = some tokens) : (inheritedTokens [] own)[0]? = some tokens := by
  cases own with
  | nil => cases htokens
  | cons first own =>
    obtain rfl := Option.some.inj htokens
    rfl

theorem getElem?_rowTokens_of_lt {line : Str} {i : Nat} (h : i < inheriting line) :
    (rowTokens line)[i]? = (inheritedTokens [] (ownTokens line))[i]? := by
  rw [rowTokens, List.getElem?_append_left, List.getElem?_take_of_lt h]
  rw [List.length_take, length_inheritedTokens, Nat.min_eq_left (inheriting_le line)]
  exact h

theorem getElem?_rowTokens_of_le {line : Str} {i : Nat} (h : inheriting line ≤ i) :
    (rowTokens line)[i]? = (ownTokens line)[i]? := by
  have hlen : ((inheritedTokens [] (ownTokens line)).take (inheriting line)).length =
      inheriting line := by
    rw [List.length_take, length_inheritedTokens, Nat.min_eq_left (inheriting_le line)]
  rw [rowTokens, List.getElem?_append_right (hlen.le.trans h), hlen, List.getElem?_drop,
    Nat.add_sub_cancel' h]

/-! ### The name of a line -/

/-- The first word of a line. -/
theorem headName_eq (line : Str) :
    headName line =
      let head := line.take ((line.idxOf? space).getD line.length)
      if isCommandName head then head else [] := by
  unfold headName
  cases line.idxOf? space with
  | none => simp only [Option.getD_none, List.take_length]
  | some i => rfl

theorem headName_of_ne {line : Str} (h : headName line ≠ []) :
    headName line = line.take ((line.idxOf? space).getD line.length) ∧
      isCommandName (headName line) = true := by
  rw [headName_eq] at h ⊢
  dsimp only at h ⊢
  split at h
  · rename_i hname
    rw [if_pos hname]
    exact ⟨rfl, hname⟩
  · exact absurd rfl h

theorem isCommandName_headName {line : Str} (h : headName line ≠ []) :
    isCommandName (headName line) = true := (headName_of_ne h).2

/-- A line with a name is that name, or goes on after it and a space. -/
theorem line_eq_named {line : Str} (h : headName line ≠ []) :
    (line = headName line ∧ restOf line = []) ∨ line = headName line ++ space :: restOf line := by
  have hname := (headName_of_ne h).1
  rw [restOf, if_neg h]
  cases hidx : line.idxOf? space with
  | none =>
    rw [hidx, Option.getD_none, List.take_length] at hname
    exact Or.inl ⟨hname.symm, rfl⟩
  | some i =>
    rw [hidx, Option.getD_some] at hname
    have hi := (List.idxOf?_eq_some_iff.mp hidx).1
    have hget : (line)[i] = space := (List.idxOf?_eq_some_iff.mp hidx).2.1
    refine Or.inr ?_
    calc line
        = line.take i ++ line.drop i := (List.take_append_drop i line).symm
      _ = headName line ++ space :: line.drop (i + 1) := by
        rw [hname, List.drop_eq_getElem_cons hi, hget]

theorem rowPrefix_of_named {line : Str} (h : headName line ≠ []) :
    rowPrefix line = headName line ++ [space] := if_neg h

/-- A line that starts with a name is parsed as the tokens after it. -/
theorem parseCommand_named {name : Str} (hname : isCommandName name = true) (rest : Str) :
    parseCommand (name ++ space :: rest) =
      some ⟨name, (rest.splitOn space).foldl readToken .empty⟩ := by
  have hne := ne_nil_of_isCommandName hname
  unfold parseCommand
  rw [if_neg (by simp), skipUnprintable_name hname,
    List.splitOn_append_cons_self_of_not_mem (space_not_mem_name hname)]
  simp only [List.headD_cons, if_neg hne, hname, if_true, List.drop_one, List.tail_cons]

theorem foldl_readToken_filter (params : Params) (tokens : List Str) :
    (tokens.filter fun token => token ≠ []).foldl readToken params = tokens.foldl readToken params := by
  induction tokens generalizing params with
  | nil => rfl
  | cons token tokens ih =>
    by_cases htoken : token = []
    · rw [List.filter_cons_of_neg (by simpa using htoken), ih, List.foldl_cons, readToken,
        if_pos htoken]
    · rw [List.filter_cons_of_pos (by simpa using htoken), List.foldl_cons, List.foldl_cons, ih]

/-- The parameters that tokens give. -/
def tokenParams (tokens : List Str) : Params := tokens.foldl readToken .empty

theorem foldl_readToken_splitOn (part : Str) :
    (part.splitOn space).foldl readToken .empty = tokenParams (tokensOf part) :=
  (foldl_readToken_filter _ _).symm

theorem splitOn_joinSpace {tokens : List Str} (hne : tokens ≠ [])
    (h : ∀ token ∈ tokens, space ∉ token) : (joinSpace tokens).splitOn space = tokens :=
  List.splitOn_intercalate space h hne

theorem not_mem_of_mem_splitOn {c : UInt16} {text word : Str} (h : word ∈ text.splitOn c) :
    c ∉ word := by
  induction text generalizing word with
  | nil =>
    rw [List.splitOn_nil, List.mem_singleton] at h
    exact h ▸ List.not_mem_nil
  | cons x text ih =>
    rw [List.splitOn_cons_eq_if_modifyHead] at h
    split at h
    · rcases List.mem_cons.mp h with rfl | h
      · exact List.not_mem_nil
      · exact ih h
    · rename_i hx
      obtain ⟨first, words, hsplit⟩ := List.exists_cons_of_ne_nil (List.splitOn_ne_nil c text)
      rw [hsplit, List.modifyHead_cons, List.mem_cons] at h
      rcases h with rfl | h
      · rw [List.mem_cons, not_or]
        refine ⟨fun hc => hx (by rw [hc, beq_self_eq_true]), ih ?_⟩
        rw [hsplit]
        exact List.mem_cons_self
      · exact ih (hsplit ▸ List.mem_cons_of_mem _ h)

/-- The tokens of a part hold no space, and none is empty. -/
theorem space_not_mem_tokensOf {part token : Str} (h : token ∈ tokensOf part) :
    space ∉ token ∧ token ≠ [] := by
  rw [tokensOf, List.mem_filter, decide_eq_true_iff] at h
  exact ⟨not_mem_of_mem_splitOn h.1, h.2⟩

end Teamspeak
