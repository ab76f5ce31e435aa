import Teamspeak.Core.Codec
import Teamspeak.Query.Web

/-!
# What the lines of an answer say

* `errorOfLine_errorLine`: the last line is the `error` line of the answer's status.
* `ReadsBack`: a row's line is read as that row.
* `nameless_rowLine`: no row's line has a name, whatever its keys.
* `readsBack_of_validKey`: a row whose keys are valid is read as itself.
-/

namespace Teamspeak.Query

theorem return_escaped :
    (∃ e ∈ escapeMap, (0x0D : UInt16) = e.1) ∧ ∀ e ∈ escapeMap, (0x0D : UInt16) ∉ e.2 := by
  decide

theorem trimReturn_of_not_mem {text : Str} (h : 0x0D ∉ text) : trimReturn text = text := by
  rw [trimReturn, if_neg]
  intro hlast
  exact h (List.mem_of_getLast? hlast)

/-! ### The status -/

theorem errorFields_ne_nil (r : Response) : r.errorFields ≠ [] := by
  simp [Response.errorFields]

theorem validKey_errorFields (r : Response) : ∀ p ∈ r.errorFields, validKey p.1 = true := by
  have hkey : ∀ key ∈ [Str.of "id", .of "msg", .of "extra_msg", .of "failed_permission"],
      validKey key = true := by decide
  intro p hp
  have hmem : p.1 ∈ [Str.of "id", .of "msg", .of "extra_msg", .of "failed_permission"] := by
    simp only [Response.errorFields, List.mem_append] at hp
    rcases hp with hp | hp | hp
    · rcases List.mem_pair.mp hp with rfl | rfl
      · simp
      · simp
    · split at hp
      · cases hp
      · rw [List.mem_singleton.mp hp]
        simp
    · split at hp
      · cases hp
      · rw [List.mem_singleton.mp hp]
        simp
  exact hkey p.1 hmem

/-- **The `error` line says what the answer's status does.** -/
theorem errorOfLine_errorLine (r : Response) : errorOfLine r.errorLine = some r.error := by
  have hname : isCommandName (.of "error") = true := by decide
  have hline : r.errorLine = .of "error" ++ [space] ++ rowText r.errorFields :=
    buildCommandOrdered_name hname (errorFields_ne_nil r)
  have hreturn : 0x0D ∉ r.errorLine := by
    rw [hline, List.mem_append, not_or]
    exact ⟨by decide, not_mem_rowText return_escaped (by decide) (by decide) _⟩
  rw [errorOfLine, trimReturn_of_not_mem hreturn, hline,
    parseCommand_row hname (validKey_errorFields r) (errorFields_ne_nil r)]
  rfl

theorem errorOfLine_useLine (params : Params) : (errorOfLine (useLine params)).isSome = true := by
  rw [useLine]
  split
  · decide
  · decide

/-! ### Rows -/

/-- The line of a row is read as that row, and as nothing else. -/
def ReadsBack (row : JsonRow) : Prop := rowsOfLine (rowLine row) = some [rowOf row]

instance : DecidablePred ReadsBack := fun row =>
  inferInstanceAs (Decidable (rowsOfLine (rowLine row) = some [rowOf row]))

/-- A field has an equals sign, or starts with a dash. -/
theorem paramToken_sign (p : Str × Str) :
    ∃ before c after, paramToken p = before ++ c :: after ∧ (c = equalSign ∨ c = dash) := by
  have hdash : escape [dash] = [dash] := by decide
  rw [paramToken]
  split
  · rename_i hflag
    obtain ⟨body, hbody⟩ := List.head?_eq_some_iff.mp (of_decide_eq_true hflag.1)
    refine ⟨[], dash, escape body, ?_, Or.inr rfl⟩
    rw [hbody, escape_cons, hdash, List.singleton_append, List.nil_append]
  · exact ⟨escape p.1, equalSign, escape p.2, rfl, Or.inl rfl⟩

theorem not_commandName_of_sign {token : Str} {c : UInt16} (hc : c = equalSign ∨ c = dash)
    (hmem : c ∈ token) : isCommandName token = false := by
  rw [Bool.eq_false_iff]
  intro hname
  have halphanumeric := alphanumeric_of_mem hname hmem
  rcases hc with rfl | rfl
  · exact absurd halphanumeric (by decide)
  · exact absurd halphanumeric (by decide)

/-- A field is no command name. -/
theorem not_commandName_paramToken (p : Str × Str) : isCommandName (paramToken p) = false := by
  obtain ⟨before, c, after, htoken, hc⟩ := paramToken_sign p
  exact not_commandName_of_sign hc (by simp [htoken])

/-- The line of a row, its first field apart. -/
theorem rowText_cons (p : Str × Str) (ps : List (Str × Str)) :
    ∃ rest, rowText (p :: ps) = paramToken p ++ rest ∧ (rest = [] ∨ rest.head? = some space) := by
  cases ps with
  | nil => exact ⟨[], by simp [rowText, joinSpace], Or.inl rfl⟩
  | cons q ps =>
    refine ⟨[space] ++ rowText (q :: ps), ?_, Or.inr rfl⟩
    rw [rowText, joinSpace, List.map_cons, List.map_cons, List.intercalate_cons_cons, rowText,
      joinSpace, List.map_cons, List.append_assoc]

theorem headName_rowText (p : Str × Str) (ps : List (Str × Str)) :
    headName (rowText (p :: ps)) = [] := by
  have hspace : space ∉ paramToken p := separator_not_mem_paramToken List.mem_cons_self p
  obtain ⟨rest, hrest, hnil | hcons⟩ := rowText_cons p ps
  · rw [headName, hrest, hnil, List.append_nil, List.idxOf?_eq_none_iff.mpr hspace]
    dsimp only
    rw [not_commandName_paramToken]
    rfl
  · obtain ⟨rest, rfl⟩ := List.head?_eq_some_iff.mp hcons
    rw [headName, hrest, idxOf?_append_cons hspace]
    simp only [List.take_left, not_commandName_paramToken, Bool.false_eq_true, if_false]

/-- What is skipped at the start of a field ends before its sign. -/
theorem skipUnprintable_sign {c : UInt16} (hc : c = equalSign ∨ c = dash) (before s : Str) :
    ∃ kept, skipUnprintable (before ++ c :: s) = kept ++ c :: s ∧ kept <:+ before := by
  have hprintable : isPrintable c = true := by
    rcases hc with rfl | rfl
    · decide
    · decide
  rw [skipUnprintable, List.findIdx?_append, List.findIdx?_cons, hprintable, if_pos rfl]
  cases hfind : before.findIdx? isPrintable with
  | none =>
    refine ⟨[], ?_, List.nil_suffix⟩
    simp
  | some i =>
    have hlt : i < before.length := (List.findIdx?_eq_some_iff_getElem.mp hfind).1
    refine ⟨before.drop i, ?_, List.drop_suffix i before⟩
    simp [List.drop_append_of_le_length hlt.le]

/-- The line of a row starts with no name, whatever its keys are. -/
theorem nameless_rowText {ps : List (Str × Str)} {cmd : Command}
    (h : parseCommand (rowText ps) = some cmd) : cmd.name = [] := by
  rcases ps with _ | ⟨p, ps⟩
  · cases h
  obtain ⟨before, c, after, htoken, hc⟩ := paramToken_sign p
  obtain ⟨rest, hrest, hcases⟩ := rowText_cons p ps
  obtain ⟨kept, hkept, hsuffix⟩ := skipUnprintable_sign hc before (after ++ rest)
  have hspace : space ∉ kept ++ c :: after := by
    have hall : space ∉ paramToken p := separator_not_mem_paramToken List.mem_cons_self p
    rw [htoken, List.mem_append, not_or] at hall
    rw [List.mem_append, not_or]
    exact ⟨fun hmem => hall.1 (hsuffix.subset hmem), hall.2⟩
  have hfirst : ((kept ++ c :: after ++ rest).splitOn space).headD [] = kept ++ c :: after := by
    rcases hcases with rfl | hcons
    · rw [List.append_nil, List.splitOn_eq_singleton hspace]
      rfl
    · obtain ⟨rest, rfl⟩ := List.head?_eq_some_iff.mp hcons
      rw [List.splitOn_append_cons_self_of_not_mem hspace]
      rfl
  rw [parseCommand, hrest, htoken, List.append_assoc, List.cons_append, hkept] at h
  rw [List.append_assoc, List.cons_append] at hfirst
  simp only [hfirst, not_commandName_of_sign hc (List.mem_append_right kept List.mem_cons_self)] at h
  split at h
  · cases h
  · split at h
    · cases h
    · exact (congrArg Command.name (Option.some.inj h)).symm

theorem not_return_mem_rowLine (row : JsonRow) : 0x0D ∉ rowLine row := by
  rw [rowLine, drop_buildCommandOrdered]
  exact not_mem_rowText return_escaped (by decide) (by decide) _

/-- **A row is no `error` line and no notification**, whatever it holds. -/
theorem nameless_rowLine {row : JsonRow} {cmd : Command}
    (h : parseCommand (trimReturn (rowLine row)) = some cmd) : cmd.name = [] := by
  rw [trimReturn_of_not_mem (not_return_mem_rowLine row), rowLine, drop_buildCommandOrdered] at h
  exact nameless_rowText h

theorem skipUnprintable_rowText {p : Str × Str} (h : validKey p.1 = true)
    (ps : List (Str × Str)) : skipUnprintable (rowText (p :: ps)) = rowText (p :: ps) := by
  obtain ⟨c, key, hkey⟩ := List.exists_cons_of_ne_nil (ne_nil_of_validKey h)
  have hprintable : isPrintable c = true := by
    rcases keyUnit_of_mem h (hkey ▸ List.mem_cons_self) with hc | rfl
    · rw [isKeyUnit, Bool.or_eq_true, beq_iff_eq] at hc
      rcases hc with hc | rfl
      · exact isPrintable_of_isAlphanumeric hc
      · decide
    · decide
  obtain ⟨token, htoken⟩ : ∃ token, paramToken p = c :: token := by
    rcases paramToken_cases h with ⟨-, -, htoken⟩ | htoken
    · exact ⟨key, htoken.trans hkey⟩
    · exact ⟨key ++ equalSign :: escape p.2, by rw [htoken, hkey]; rfl⟩
  obtain ⟨rest, hrest, -⟩ := rowText_cons p ps
  rw [hrest, htoken, List.cons_append, skipUnprintable, List.findIdx?_cons, hprintable]
  rfl

theorem parseCommand_rowText {ps : List (Str × Str)} (h : ∀ p ∈ ps, validKey p.1 = true)
    (hne : ps ≠ []) : parseCommand (rowText ps) = some ⟨[], InsertionMap.empty.setAll ps⟩ := by
  obtain ⟨p, ps, rfl⟩ := List.exists_cons_of_ne_nil hne
  have hp := h p List.mem_cons_self
  rw [parseCommand, if_neg (rowText_ne_nil h hne), skipUnprintable_rowText hp,
    splitOn_rowText hne]
  simp only [List.map_cons, List.headD_cons]
  rw [if_neg (paramToken_ne_nil hp), not_commandName_paramToken]
  simp only [Bool.false_eq_true, if_false, if_true, List.drop_zero]
  rw [← List.map_cons, foldl_readToken h]

/-- **A row whose keys are valid is read back as it was**, whatever its values are. -/
theorem readsBack_of_validKey {row : JsonRow} (h : ∀ e ∈ row, validKey e.1 = true)
    (hne : row ≠ []) : ReadsBack row := by
  have hkeys : ∀ p ∈ rowFields row, validKey p.1 = true := by
    intro p hp
    obtain ⟨e, he, rfl⟩ := List.mem_map.mp hp
    exact h e he
  have hfields : rowFields row ≠ [] := by simpa [rowFields] using hne
  have hparse := parseCommand_rowText hkeys hfields
  have hsplit : splitRows (rowText (rowFields row)) = [rowText (rowFields row)] := by
    obtain ⟨p, ps, hps⟩ := List.exists_cons_of_ne_nil hfields
    have hhead : headName (rowText (rowFields row)) = [] := by
      rw [hps]
      exact headName_rowText p ps
    rw [splitRows, restOf, rowPrefix, if_pos hhead, if_pos hhead,
      List.splitOn_eq_singleton (pipe_not_mem_rowText _)]
    simp [rowText_ne_nil hkeys hfields]
  rw [ReadsBack, rowsOfLine, trimReturn_of_not_mem (not_return_mem_rowLine row), rowLine,
    drop_buildCommandOrdered, hparse, hsplit]
  simp [hparse, rowOf]
  decide

end Teamspeak.Query
