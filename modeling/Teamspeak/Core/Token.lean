import Teamspeak.Core.Escape
import Teamspeak.Core.Rows

/-!
# Tokens

A parameter that `encodeParams` lets through, written by `paramToken`, is read back
as it was: by `readToken` as its key and value, and by `fieldName` as its key.

* `Sendable`: a parameter that `encodeParams` lets through.
* `parseCommand_row`: a named row of such tokens is read as setting them in turn.
* `lastPerField_tokens`, `resolveRow_tokens`: what the row splitter does to tokens is
  what a map does to their entries.
* `reads_inheritedRows`: the rows of a line, read.
-/

namespace Teamspeak

/-- A valid key, and for a flag no value. -/
structure Sendable (param : Str × Str) : Prop where
  key : validKey param.1 = true
  flag : isFlag param.1 = true → param.2 = []

/-! ### Keys -/

theorem keyUnit_plain :
    ∀ e ∈ escapeMap, isKeyUnit e.1 = false ∧ e.1 ≠ dash := by decide

theorem equalSign_not_keyUnit : isKeyUnit equalSign = false ∧ equalSign ≠ dash := by
  decide

theorem keyUnit_of_mem {key : Str} (hkey : validKey key = true) {c : UInt16} (hc : c ∈ key) :
    isKeyUnit c = true ∨ c = dash := by
  unfold validKey at hkey
  by_cases hflag : isFlag key = true
  · rw [if_pos hflag] at hkey
    cases key with
    | nil => exact absurd hc List.not_mem_nil
    | cons d body =>
      rcases List.mem_cons.mp hc with rfl | hc
      · exact Or.inr (by simpa [isFlag] using hflag)
      · simp only [List.tail_cons, Bool.decide_and, Bool.and_eq_true, decide_eq_true_eq,
          List.all_eq_true] at hkey
        exact Or.inl (hkey.2 c hc)
  · rw [if_neg hflag] at hkey
    simp only [Bool.decide_and, Bool.and_eq_true, decide_eq_true_eq, List.all_eq_true] at hkey
    exact Or.inl (hkey.2 c hc)

theorem ne_nil_of_validKey {key : Str} (hkey : validKey key = true) : key ≠ [] := by
  rintro rfl
  exact absurd hkey (by decide)

theorem escape_key {key : Str} (hkey : validKey key = true) : escape key = key := by
  apply escape_of_plain
  rintro c hc e he rfl
  obtain ⟨hunit, hdash⟩ := keyUnit_plain e he
  rcases keyUnit_of_mem hkey hc with h | h
  · exact absurd (hunit ▸ h) (by decide)
  · exact hdash h

theorem unescape_key {key : Str} (hkey : validKey key = true) : unescape key = key := by
  calc unescape key
      = unescape (escape key) := by rw [escape_key hkey]
    _ = key := unescape_escape key

theorem equalSign_not_mem_key {key : Str} (hkey : validKey key = true) : equalSign ∉ key := by
  intro hc
  obtain ⟨hunit, hdash⟩ := equalSign_not_keyUnit
  rcases keyUnit_of_mem hkey hc with h | h
  · exact absurd (hunit ▸ h) (by decide)
  · exact hdash h

/-! ### One token -/

/-- A token with a valid key is the bare key of a flag, or the key with its value. -/
theorem paramToken_cases {param : Str × Str} (h : validKey param.1 = true) :
    (isFlag param.1 = true ∧ param.2 = [] ∧ paramToken param = param.1) ∨
      paramToken param = param.1 ++ equalSign :: escape param.2 := by
  rw [paramToken, escape_key h]
  by_cases hflag : isFlag param.1 = true ∧ param.2 = []
  · exact Or.inl ⟨hflag.1, hflag.2, if_pos hflag⟩
  · exact Or.inr (if_neg hflag)

theorem paramToken_ne_nil {param : Str × Str} (h : validKey param.1 = true) :
    paramToken param ≠ [] := by
  rcases paramToken_cases h with ⟨-, -, htoken⟩ | htoken
  · exact htoken ▸ ne_nil_of_validKey h
  · rw [htoken]
    simp

/-- A token holds no character that is escaped, but for what `escape` puts there. -/
theorem not_mem_paramToken {c : UInt16}
    (hc : (∃ e ∈ escapeMap, c = e.1) ∧ ∀ e ∈ escapeMap, c ∉ e.2) (hne : c ≠ equalSign)
    (param : Str × Str) : c ∉ paramToken param := by
  unfold paramToken
  split
  · exact not_mem_escape hc _
  · rw [List.mem_append, List.mem_cons, not_or, not_or]
    exact ⟨not_mem_escape hc _, hne, not_mem_escape hc _⟩

/-- A token holds nothing that ends it. -/
theorem separator_not_mem_paramToken {sep : UInt16} (hsep : sep ∈ [space, pipe])
    (param : Str × Str) : sep ∉ paramToken param := by
  refine not_mem_paramToken (separator_escaped hsep) ?_ param
  rintro rfl
  exact absurd hsep (by decide)

/-- The first of a character stands after text that lacks it. -/
theorem idxOf?_append_cons {c : UInt16} {text : Str} (h : c ∉ text) (v : Str) :
    (text ++ c :: v).idxOf? c = some text.length := by
  induction text with
  | nil => rw [List.nil_append, List.idxOf?_cons, if_pos (beq_self_eq_true _)]; rfl
  | cons d text ih =>
    rw [List.mem_cons, not_or] at h
    have hd : ¬ (d == c) = true := by
      rw [beq_iff_eq]
      exact fun heq => h.1 heq.symm
    rw [List.cons_append, List.idxOf?_cons, if_neg hd, ih h.2]
    rfl

theorem fieldName_paramToken {param : Str × Str} (h : validKey param.1 = true) :
    fieldName (paramToken param) = param.1 := by
  have hkey := equalSign_not_mem_key h
  unfold fieldName
  rcases paramToken_cases h with ⟨-, -, htoken⟩ | htoken
  · rw [htoken, List.idxOf?_eq_none_iff.mpr hkey]
  · obtain ⟨n, hn⟩ : ∃ n, param.1.length = n + 1 :=
      Nat.exists_eq_succ_of_ne_zero fun h₀ => ne_nil_of_validKey h (List.length_eq_zero_iff.mp h₀)
    rw [htoken, idxOf?_append_cons hkey, hn]
    show List.take (n + 1) _ = _
    rw [← hn, List.take_left]

/-- **A token is read as the parameter it was written for.** -/
theorem readToken_paramToken {param : Str × Str} (h : validKey param.1 = true) (params : Params) :
    readToken params (paramToken param) = params.set param.1 param.2 := by
  have hkey := equalSign_not_mem_key h
  unfold readToken
  rw [if_neg (paramToken_ne_nil h)]
  rcases paramToken_cases h with ⟨-, hvalue, htoken⟩ | htoken
  · rw [htoken, List.idxOf?_eq_none_iff.mpr hkey]
    show params.set (unescape param.1) [] = _
    rw [unescape_key h, hvalue]
  · rw [htoken, idxOf?_append_cons hkey]
    show params.set (unescape (List.take _ _)) (unescape (List.drop _ _)) = _
    rw [List.take_left, unescape_key h, List.drop_append, List.drop_eq_nil_of_le (by omega)]
    rw [List.nil_append, show param.1.length + 1 - param.1.length = 1 by omega, List.drop_one,
      List.tail_cons, unescape_escape]

theorem foldl_readToken {ps : List (Str × Str)} (h : ∀ p ∈ ps, validKey p.1 = true)
    (params : Params) : (ps.map paramToken).foldl readToken params = params.setAll ps := by
  induction ps generalizing params with
  | nil => rfl
  | cons p ps ih =>
    rw [List.map_cons, List.foldl_cons, readToken_paramToken (h p List.mem_cons_self),
      ih fun p hp => h p (List.mem_cons_of_mem _ hp)]
    rfl

/-! ### A row of tokens -/

/-- The part of a line that a row of parameters is written as. -/
def rowText (ps : List (Str × Str)) : Str := joinSpace (ps.map paramToken)

theorem tokens_ne_nil {ps : List (Str × Str)} (hne : ps ≠ []) : ps.map paramToken ≠ [] := by
  simpa using hne

theorem splitOn_rowText {ps : List (Str × Str)} (hne : ps ≠ []) :
    (rowText ps).splitOn space = ps.map paramToken := by
  apply List.splitOn_intercalate space _ (tokens_ne_nil hne)
  intro token htoken
  obtain ⟨p, -, rfl⟩ := List.mem_map.mp htoken
  exact separator_not_mem_paramToken List.mem_cons_self p

theorem tokensOf_rowText {ps : List (Str × Str)} (h : ∀ p ∈ ps, validKey p.1 = true) (hne : ps ≠ []) :
    tokensOf (rowText ps) = ps.map paramToken := by
  unfold tokensOf
  rw [splitOn_rowText hne, List.filter_eq_self]
  intro token htoken
  obtain ⟨p, hp, rfl⟩ := List.mem_map.mp htoken
  simpa using paramToken_ne_nil (h p hp)

theorem mem_intercalate {α : Type*} {sep : List α} {ls : List (List α)} {x : α}
    (h : x ∈ sep.intercalate ls) : x ∈ sep ∨ ∃ l ∈ ls, x ∈ l := by
  induction ls with
  | nil => exact absurd h List.not_mem_nil
  | cons l ls ih =>
    by_cases hne : ls = []
    · rw [hne, List.intercalate_singleton] at h
      exact Or.inr ⟨l, List.mem_cons_self, h⟩
    · rw [List.intercalate_cons_of_ne_nil hne, List.mem_append, List.mem_append] at h
      rcases h with (h | h) | h
      · exact Or.inr ⟨l, List.mem_cons_self, h⟩
      · exact Or.inl h
      · exact (ih h).imp_right fun ⟨l', hl', hx⟩ => ⟨l', List.mem_cons_of_mem _ hl', hx⟩

theorem not_mem_rowText {c : UInt16}
    (hc : (∃ e ∈ escapeMap, c = e.1) ∧ ∀ e ∈ escapeMap, c ∉ e.2) (hne : c ≠ equalSign)
    (hspace : c ≠ space) (ps : List (Str × Str)) : c ∉ rowText ps := by
  intro h
  rcases mem_intercalate h with h | ⟨token, htoken, h⟩
  · exact hspace (List.mem_singleton.mp h)
  · obtain ⟨p, -, rfl⟩ := List.mem_map.mp htoken
    exact not_mem_paramToken hc hne p h

theorem pipe_not_mem_rowText (ps : List (Str × Str)) : pipe ∉ rowText ps :=
  not_mem_rowText (separator_escaped (List.mem_cons_of_mem _ List.mem_cons_self)) (by decide)
    (by decide) ps

theorem rowText_ne_nil {ps : List (Str × Str)} (h : ∀ p ∈ ps, validKey p.1 = true)
    (hne : ps ≠ []) : rowText ps ≠ [] := by
  intro hnil
  have htokens := tokensOf_rowText h hne
  rw [hnil] at htokens
  exact tokens_ne_nil hne (htokens.symm.trans (by decide))

/-! ### Names -/

theorem alphanumeric_of_mem {name : Str} (hname : isCommandName name = true) {c : UInt16}
    (hc : c ∈ name) : Str.isAlphanumeric c = true := by
  unfold isCommandName at hname
  simp only [Bool.decide_and, Bool.and_eq_true, decide_eq_true_eq, List.all_eq_true] at hname
  exact hname.2 c hc

theorem ne_nil_of_isCommandName {name : Str} (hname : isCommandName name = true) : name ≠ [] := by
  rintro rfl
  exact absurd hname (by decide)

theorem escape_name {name : Str} (hname : isCommandName name = true) : escape name = name := by
  apply escape_of_plain
  rintro c hc e he rfl
  have hunit : isKeyUnit e.1 = true := by
    unfold isKeyUnit
    rw [alphanumeric_of_mem hname hc, Bool.true_or]
  exact absurd ((keyUnit_plain e he).1 ▸ hunit) (by decide)

theorem space_not_mem_name {name : Str} (hname : isCommandName name = true) : space ∉ name :=
  fun hc => absurd (alphanumeric_of_mem hname hc) (by decide)

theorem isPrintable_of_isAlphanumeric {c : UInt16} (h : Str.isAlphanumeric c = true) :
    isPrintable c = true := by
  unfold Str.isAlphanumeric Str.isDigit at h
  unfold isPrintable
  simp only [decide_eq_true_eq] at h ⊢
  omega

/-- A line that starts with a name is parsed from its first character on. -/
theorem skipUnprintable_name {name : Str} (hname : isCommandName name = true) (s : Str) :
    skipUnprintable (name ++ s) = name ++ s := by
  cases name with
  | nil => exact absurd hname (by decide)
  | cons c name =>
    have hc := isPrintable_of_isAlphanumeric (alphanumeric_of_mem hname List.mem_cons_self)
    unfold skipUnprintable
    rw [List.cons_append, List.findIdx?_cons, hc]
    rfl

/-- **A row is read as its tokens, set in turn.** -/
theorem parseCommand_row {name : Str} (hname : isCommandName name = true) {ps : List (Str × Str)}
    (h : ∀ p ∈ ps, validKey p.1 = true) (hne : ps ≠ []) :
    parseCommand (name ++ [space] ++ rowText ps) =
      some ⟨name, InsertionMap.empty.setAll ps⟩ := by
  have hsplit : (name ++ space :: rowText ps).splitOn space =
      name :: ps.map paramToken := by
    rw [List.splitOn_append_cons_self_of_not_mem (space_not_mem_name hname),
      splitOn_rowText hne]
  have hname' := ne_nil_of_isCommandName hname
  rw [List.append_assoc, List.singleton_append]
  unfold parseCommand
  rw [if_neg (by simp), skipUnprintable_name hname, hsplit]
  simp only [List.headD_cons, if_neg hname', hname, if_true, List.drop_one, List.tail_cons]
  rw [foldl_readToken h]

/-! ### Rows of tokens -/

theorem setEntries_tokens (p : Str × Str) (l : List (Str × Str)) :
    InsertionMap.setEntries p.1 (paramToken p) (l.map fun e => (e.1, paramToken e)) =
      (InsertionMap.setEntries p.1 p.2 l).map fun e => (e.1, paramToken e) := by
  induction l with
  | nil => rfl
  | cons e l ih =>
    rw [List.map_cons, InsertionMap.setEntries, InsertionMap.setEntries]
    by_cases he : e.1 = p.1
    · rw [if_pos he, if_pos he, List.map_cons]
    · rw [if_neg he, if_neg he, List.map_cons, ih]

theorem foldl_keep {ps : List (Str × Str)} (h : ∀ p ∈ ps, Sendable p)
    {kept m : InsertionMap Str Str} (hkept : kept.entries = m.entries.map fun e => (e.1, paramToken e)) :
    ((ps.map paramToken).foldl (fun kept token => kept.set (fieldName token) token) kept).entries =
      (m.setAll ps).entries.map fun e => (e.1, paramToken e) := by
  induction ps generalizing kept m with
  | nil => exact hkept
  | cons p ps ih =>
    rw [List.map_cons, List.foldl_cons, InsertionMap.setAll_cons,
      fieldName_paramToken (h p List.mem_cons_self).key]
    apply ih fun p hp => h p (List.mem_cons_of_mem _ hp)
    show InsertionMap.setEntries _ _ kept.entries = _
    rw [hkept]
    exact setEntries_tokens p m.entries

/-- The last token of each field is that of the entry that is left when all are set
in turn. -/
theorem lastPerField_tokens {ps : List (Str × Str)} (h : ∀ p ∈ ps, Sendable p) :
    lastPerField (ps.map paramToken) = (InsertionMap.empty.setAll ps).entries.map paramToken := by
  unfold lastPerField
  rw [foldl_keep h (m := .empty) rfl, List.map_map]
  rfl

theorem map_fieldName_tokens {ps : List (Str × Str)} (h : ∀ p ∈ ps, Sendable p) :
    (ps.map paramToken).map fieldName = ps.map Prod.fst := by
  rw [List.map_map]
  exact List.map_congr_left fun p hp => fieldName_paramToken (h p hp).key

theorem resolveRow_tokens {m : Params} (hm : ∀ e ∈ m.entries, Sendable e) {ps : List (Str × Str)}
    (h : ∀ p ∈ ps, Sendable p) :
    resolveRow (m.entries.map paramToken) (ps.map paramToken) =
      (m.overlay ps).map paramToken := by
  unfold resolveRow InsertionMap.overlay
  rw [map_fieldName_tokens h, List.map_append, List.filter_map]
  congr 2
  apply List.filter_congr
  intro e he
  show decide (fieldName (paramToken e) ∉ _) = _
  rw [fieldName_paramToken (hm e he).key, decide_eq_decide]

theorem sendable_overlay {m : Params} (hm : ∀ e ∈ m.entries, Sendable e)
    {ps : List (Str × Str)} (h : ∀ p ∈ ps, Sendable p) : ∀ p ∈ m.overlay ps, Sendable p := by
  intro p hp
  rcases List.mem_append.mp hp with hp | hp
  · exact hm p (List.mem_of_mem_filter hp)
  · exact h p hp

theorem sendable_setAll {m : Params} (hm : ∀ e ∈ m.entries, Sendable e) {ps : List (Str × Str)}
    (h : ∀ p ∈ ps, Sendable p) : ∀ e ∈ (m.setAll ps).entries, Sendable e := by
  induction ps generalizing m with
  | nil => exact hm
  | cons p ps ih =>
    rw [InsertionMap.setAll_cons]
    apply ih _ fun p hp => h p (List.mem_cons_of_mem _ hp)
    intro e he
    rcases List.mem_cons.mp ((InsertionMap.perm_set m p.1 p.2).mem_iff.mp he) with rfl | he
    · exact h p List.mem_cons_self
    · exact hm e (List.mem_of_mem_filter he)

/-- A row as it comes out: parameters written after `pre`, that say what `m` does. -/
def Reads (pre : Str) (m : Params) (row : Str) : Prop :=
  ∃ ps, row = pre ++ rowText ps ∧ ps ≠ [] ∧ (∀ p ∈ ps, Sendable p) ∧
    ∀ k, (InsertionMap.empty.setAll ps).get? k = m.get? k

/-- **Row `i` of a line says what the entries before it and its own first `i + 1`
rows say**, a later one over an earlier. -/
theorem reads_inheritedRows (pre : Str) {rows : List (List (Str × Str))}
    (h : ∀ ps ∈ rows, ps ≠ [] ∧ ∀ p ∈ ps, Sendable p) {m : Params}
    (hm : ∀ e ∈ m.entries, Sendable e) {i : Nat} (hi : i < rows.length) :
    ∃ row, (inheritedRows pre (m.entries.map paramToken) (rows.map rowText))[i]? = some row ∧
      Reads pre (m.setAll (rows.take (i + 1)).flatten) row := by
  induction rows generalizing m i with
  | nil => exact absurd hi (Nat.not_lt_zero i)
  | cons ps rows ih =>
    obtain ⟨hne, hps⟩ := h ps List.mem_cons_self
    have hrow := sendable_overlay hm hps
    have hstep : inheritedRows pre (m.entries.map paramToken) ((ps :: rows).map rowText) =
        (pre ++ rowText (m.overlay ps)) ::
          inheritedRows pre
            ((InsertionMap.empty.setAll (m.overlay ps)).entries.map paramToken)
            (rows.map rowText) := by
      rw [List.map_cons, inheritedRows, if_neg (rowText_ne_nil (fun p hp => (hps p hp).key) hne)]
      rw [tokensOf_rowText (fun p hp => (hps p hp).key) hne, resolveRow_tokens hm hps, lastPerField_tokens hrow]
      rfl
    rw [hstep, List.take_succ_cons, List.flatten_cons, InsertionMap.setAll_append]
    cases i with
    | zero =>
      refine ⟨_, rfl, m.overlay ps, rfl, ?_, hrow, ?_⟩
      · exact List.append_ne_nil_of_right_ne_nil _ hne
      · intro k
        rw [List.take_zero]
        exact InsertionMap.get?_setAll_overlay m ps k
    | succ i =>
      have hm' := sendable_setAll (m := InsertionMap.empty)
        (fun e he => absurd he List.not_mem_nil) hrow
      obtain ⟨row, hget, qs, hqs, hqne, hqsend, hlookup⟩ :=
        ih (fun ps hps => h ps (List.mem_cons_of_mem _ hps)) hm' (Nat.lt_of_succ_lt_succ hi)
      refine ⟨row, hget, qs, hqs, hqne, hqsend, ?_⟩
      intro k
      rw [hlookup]
      exact InsertionMap.get?_setAll_congr (InsertionMap.get?_setAll_overlay m ps) _ k

theorem length_inheritedRows (pre : Str) {rows : List (List (Str × Str))}
    (h : ∀ ps ∈ rows, ps ≠ [] ∧ ∀ p ∈ ps, Sendable p) (previous : List Str) :
    (inheritedRows pre previous (rows.map rowText)).length = rows.length := by
  induction rows generalizing previous with
  | nil => rfl
  | cons ps rows ih =>
    obtain ⟨hne, hps⟩ := h ps List.mem_cons_self
    rw [List.map_cons, inheritedRows, if_neg (rowText_ne_nil (fun p hp => (hps p hp).key) hne),
      List.length_cons,
      ih fun ps hps => h ps (List.mem_cons_of_mem _ hps), List.length_cons]

/-- A named row that says what `m` does is parsed so. -/
theorem Reads.parseCommand {name : Str} (hname : isCommandName name = true) {m : Params}
    {row : Str} (h : Reads (name ++ [space]) m row) :
    ∃ params, parseCommand row = some ⟨name, params⟩ ∧ ∀ k, params.get? k = m.get? k := by
  obtain ⟨ps, rfl, hne, hps, hlookup⟩ := h
  exact ⟨_, parseCommand_row hname (fun p hp => (hps p hp).key) hne, hlookup⟩

end Teamspeak
