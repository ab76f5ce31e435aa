import Teamspeak.Core.Rows.Budget
import Teamspeak.Core.Rows.Fields

/-!
# What a row inherits

Rows inherit as text: the tokens of the row before, less those whose field the row names
itself.  For tokens as they are written on this protocol, the text before an equals sign
is the key, and so the parameters that are read from a row are those of the row before
overridden by those of its own part.

* `PlainToken`, `PlainLine`
* `get?_tokenParams`: a row is read by its fields.
* `rows_inherit`: the rows of a plain line, read.
-/

namespace Teamspeak

/-- `key=value` with a valid key, or a flag. -/
structure PlainToken (token : Str) : Prop where
  key : validKey (fieldName token) = true
  value_or_flag : equalSign ∈ token ∨ isFlag token = true

/-- A line all of whose parts hold tokens, all of them plain. -/
structure PlainLine (line : Str) : Prop where
  tokens : ∀ part ∈ (restOf line).splitOn pipe, tokensOf part ≠ []
  plain : ∀ part ∈ (restOf line).splitOn pipe, ∀ token ∈ tokensOf part, PlainToken token

instance (token : Str) : Decidable (PlainToken token) :=
  decidable_of_iff (validKey (fieldName token) = true ∧ (equalSign ∈ token ∨ isFlag token = true))
    ⟨fun h => ⟨h.1, h.2⟩, fun h => ⟨h.key, h.value_or_flag⟩⟩

instance (line : Str) : Decidable (PlainLine line) :=
  decidable_of_iff ((∀ part ∈ (restOf line).splitOn pipe, tokensOf part ≠ []) ∧
      ∀ part ∈ (restOf line).splitOn pipe, ∀ token ∈ tokensOf part, PlainToken token)
    ⟨fun h => ⟨h.1, h.2⟩, fun h => ⟨h.tokens, h.plain⟩⟩

/-- What stands after the equals sign of a token. -/
def valueOf (token : Str) : Str :=
  match token.idxOf? equalSign with
  | some i => unescape (token.drop (i + 1))
  | none => []

/-! ### One token -/

theorem PlainToken.ne_nil {token : Str} (h : PlainToken token) : token ≠ [] := by
  rintro rfl
  exact absurd h.key (by decide)

theorem mem_of_idxOf? {c : UInt16} {text : Str} {i : Nat} (h : text.idxOf? c = some i) :
    c ∈ text := by
  obtain ⟨hi, hget, -⟩ := List.idxOf?_eq_some_iff.mp h
  exact hget ▸ List.getElem_mem hi

/-- **A plain token is read as its field and its value.** -/
theorem PlainToken.readToken {token : Str} (h : PlainToken token) (params : Params) :
    readToken params token = params.set (fieldName token) (valueOf token) := by
  have hkey := h.key
  rw [Teamspeak.readToken, if_neg h.ne_nil]
  unfold fieldName at hkey ⊢
  unfold valueOf
  cases hidx : token.idxOf? equalSign with
  | none =>
    rw [hidx] at hkey
    dsimp only at hkey ⊢
    rw [unescape_key hkey]
  | some i =>
    rw [hidx] at hkey
    cases i with
    | zero => exact absurd (mem_of_idxOf? hidx) (equalSign_not_mem_key hkey)
    | succ i =>
      dsimp only at hkey ⊢
      rw [unescape_key hkey]

theorem fieldName_isPrefix (token : Str) : fieldName token <+: token := by
  unfold fieldName
  split
  · exact List.take_prefix _ _
  · exact List.prefix_rfl

theorem isPrintable_of_mem_key {key : Str} (h : validKey key = true) {c : UInt16} (hc : c ∈ key) :
    isPrintable c = true := by
  rcases keyUnit_of_mem h hc with hc | rfl
  · rw [isKeyUnit, Bool.or_eq_true, beq_iff_eq] at hc
    rcases hc with hc | rfl
    · exact isPrintable_of_isAlphanumeric hc
    · decide
  · decide

theorem PlainToken.isPrintable {token : Str} (h : PlainToken token) {c : UInt16}
    (hc : token.head? = some c) : isPrintable c = true := by
  obtain ⟨d, key, hkey⟩ := List.exists_cons_of_ne_nil (ne_nil_of_validKey h.key)
  obtain ⟨rest, hrest⟩ := fieldName_isPrefix token
  have hd : d ∈ fieldName token := hkey ▸ List.mem_cons_self
  rw [← hrest, hkey, List.cons_append, List.head?_cons] at hc
  obtain rfl := Option.some.inj hc
  exact isPrintable_of_mem_key h.key hd

theorem PlainToken.not_commandName {token : Str} (h : PlainToken token) :
    isCommandName token = false := by
  have hequal : Str.isAlphanumeric equalSign = false := by decide
  have hdash : Str.isAlphanumeric dash = false := by decide
  rw [Bool.eq_false_iff]
  intro hname
  rcases h.value_or_flag with hc | hflag
  · exact absurd (alphanumeric_of_mem hname hc) (by rw [hequal]; exact Bool.false_ne_true)
  · rw [isFlag, decide_eq_true_iff] at hflag
    exact absurd (alphanumeric_of_mem hname (List.mem_of_mem_head? hflag))
      (by rw [hdash]; exact Bool.false_ne_true)

/-! ### The tokens of a row -/

theorem tokenParams_eq {tokens : List Str} (h : ∀ token ∈ tokens, PlainToken token) :
    tokenParams tokens =
      .setAll .empty (tokens.map fun token => (fieldName token, valueOf token)) := by
  have hfold : ∀ params : Params, tokens.foldl readToken params =
      params.setAll (tokens.map fun token => (fieldName token, valueOf token)) := by
    induction tokens with
    | nil => exact fun _ => rfl
    | cons token tokens ih =>
      intro params
      rw [List.forall_mem_cons] at h
      rw [List.foldl_cons, h.1.readToken, ih h.2]
      rfl
  exact hfold .empty

/-- **Tokens are read by their fields.** -/
theorem get?_tokenParams {tokens : List Str} (h : ∀ token ∈ tokens, PlainToken token) (k : Str) :
    (tokenParams tokens).get? k = ((fields tokens).get? k).map valueOf := by
  have hempty : ∀ k, (.empty : Params).get? k = ((.empty : Params).get? k).map valueOf :=
    fun _ => rfl
  rw [tokenParams_eq h, fields, ← InsertionMap.get?_setAll_map valueOf hempty, List.map_map]
  rfl

/-- A row that inherits has the parameters of the row before, overridden by its own. -/
theorem get?_tokenParams_resolveRow {previous tokens : List Str}
    (hprevious : ∀ token ∈ previous, PlainToken token) (h : ∀ token ∈ tokens, PlainToken token)
    (k : Str) : (tokenParams (resolveRow (lastPerField previous) tokens)).get? k =
      ((tokenParams tokens).get? k).or ((tokenParams previous).get? k) := by
  have hrow : ∀ token ∈ resolveRow (lastPerField previous) tokens, PlainToken token :=
    fun token hmem => (mem_resolveRow hmem).elim
      (fun hmem => hprevious token (mem_of_mem_lastPerField hmem)) (h token)
  rw [get?_tokenParams hrow, get?_tokenParams h, get?_tokenParams hprevious,
    get?_fields_resolveRow]
  cases (fields tokens).get? k with
  | none => rw [Option.none_or, Option.map_none, Option.none_or]
  | some token => rfl

/-! ### Parsing -/

/-- A line whose first word is no name is parsed as the tokens of all of it. -/
theorem parseCommand_nameless {s first : Str} {rest : List Str}
    (hsplit : s.splitOn space = first :: rest) (hne : first ≠ [])
    (hprintable : ∀ c, first.head? = some c → isPrintable c = true)
    (hname : isCommandName first = false) :
    parseCommand s = some ⟨[], tokenParams (tokensOf s)⟩ := by
  obtain ⟨c, first', rfl⟩ := List.exists_cons_of_ne_nil hne
  have hs : ∃ s', s = c :: s' := by
    have hjoin : [space].intercalate (s.splitOn space) = s := List.intercalate_splitOn space
    rw [hsplit] at hjoin
    cases rest with
    | nil => exact ⟨first', by rw [← hjoin, List.intercalate_singleton]⟩
    | cons word rest =>
      rw [List.intercalate_cons_cons] at hjoin
      exact ⟨_, hjoin.symm⟩
  obtain ⟨s', rfl⟩ := hs
  have hskip : skipUnprintable (c :: s') = c :: s' := by
    rw [skipUnprintable, List.findIdx?_cons, hprintable c rfl]
    rfl
  rw [← foldl_readToken_splitOn, parseCommand, if_neg (List.cons_ne_nil c s'), hskip, hsplit]
  simp only [List.headD_cons, if_neg hne, hname, if_true, List.drop_zero, Bool.false_eq_true,
    if_false]

/-- What a row of a line is parsed as. -/
theorem parseCommand_rowOfTokens {line : Str} {tokens : List Str} (hne : tokens ≠ [])
    (hspace : ∀ token ∈ tokens, space ∉ token) (hplain : ∀ token ∈ tokens, PlainToken token) :
    parseCommand (rowOfTokens (rowPrefix line) tokens) =
      some ⟨headName line, tokenParams tokens⟩ := by
  have hsplit := splitOn_joinSpace hne hspace
  have htokens : tokensOf (joinSpace tokens) = tokens := by
    rw [tokensOf, hsplit, List.filter_eq_self]
    exact fun token h => decide_eq_true (hplain token h).ne_nil
  by_cases hname : headName line = []
  · obtain ⟨first, rest, rfl⟩ := List.exists_cons_of_ne_nil hne
    have hfirst := hplain first List.mem_cons_self
    rw [rowOfTokens, rowPrefix_of_nameless hname, List.nil_append, hname,
      parseCommand_nameless hsplit hfirst.ne_nil (fun c => hfirst.isPrintable)
        hfirst.not_commandName, htokens]
  · rw [rowOfTokens, rowPrefix_of_named hname, List.append_assoc, List.singleton_append,
      parseCommand_named (isCommandName_headName hname), foldl_readToken_splitOn, htokens]

/-! ### The rows of a line -/

theorem ownTokens_plain {line : Str} (h : PlainLine line) :
    ∀ tokens ∈ ownTokens line, tokens ≠ [] ∧
      ∀ token ∈ tokens, PlainToken token ∧ space ∉ token := by
  intro tokens htokens
  obtain ⟨part, hpart, rfl⟩ := List.mem_map.mp htokens
  replace hpart := List.mem_of_mem_filter hpart
  exact ⟨h.tokens part hpart, fun token htoken =>
    ⟨h.plain part hpart token htoken, (space_not_mem_tokensOf htoken).1⟩⟩

theorem parseCommand_rowTokens {line : Str} (h : PlainLine line) {tokens : List Str}
    (htokens : tokens ∈ rowTokens line) :
    parseCommand (rowOfTokens (rowPrefix line) tokens) =
      some ⟨headName line, tokenParams tokens⟩ := by
  have hown := ownTokens_plain h
  have hall := forall_mem_rowTokens (fun tokens hmem => (hown tokens hmem).2) tokens htokens
  exact parseCommand_rowOfTokens (ne_nil_of_mem_rowTokens (fun t hmem => (hown t hmem).1) tokens
    htokens) (fun token hmem => (hall token hmem).2) fun token hmem => (hall token hmem).1

/-- What a line starts its rows with, and what it makes rows of, are parts of it. -/
theorem length_rowPrefix_add_le {line : Str} (hrest : restOf line ≠ []) :
    (rowPrefix line).length + (restOf line).length ≤ line.length := by
  by_cases hname : headName line = []
  · rw [rowPrefix_of_nameless hname, List.length_nil, Nat.zero_add]
    exact length_restOf_le line
  · have hline := (line_eq_named hname).resolve_left fun hnone => hrest hnone.2
    have hlength := congrArg List.length hline
    rw [List.length_append, List.length_cons] at hlength
    rw [rowPrefix_of_named hname, List.length_append, List.length_singleton]
    omega

theorem length_le_of_mem_partsOf {line part : Str} (h : part ∈ partsOf line) :
    part.length ≤ (restOf line).length := by
  have hjoin := sum_length_le_intercalate [pipe] ((restOf line).splitOn pipe)
  rw [List.intercalate_splitOn] at hjoin
  exact (List.single_le_sum (fun _ _ => Nat.zero_le _) _
    (List.mem_map_of_mem (List.mem_of_mem_filter h))).trans hjoin

/-- The first row of a line is never left out. -/
theorem keptRowTokens_ne_nil {line : Str} (hparts : partsOf line ≠ []) :
    keptRowTokens line ≠ [] := by
  obtain ⟨part, parts, hcons⟩ := List.exists_cons_of_ne_nil hparts
  have hpart : part ∈ partsOf line := hcons ▸ List.mem_cons_self
  have hne : part ≠ [] := by
    have := List.of_mem_filter hpart
    simpa using this
  have hle := length_le_of_mem_partsOf hpart
  have hrest : restOf line ≠ [] := by
    intro hnil
    rw [hnil, List.length_nil, Nat.le_zero, List.length_eq_zero_iff] at hle
    exact hne hle
  have hown : (ownTokens line)[0]? = some (tokensOf part) := by
    rw [ownTokens, hcons]
    rfl
  have hfirst : (rowTokens line)[0]? = some (tokensOf part) := by
    by_cases hzero : inheriting line = 0
    · rw [getElem?_rowTokens_of_le hzero.le, hown]
    · rw [getElem?_rowTokens_of_lt (Nat.pos_of_ne_zero hzero), getElem?_inheritedTokens_zero hown]
  obtain ⟨rest, hrows⟩ : ∃ rest, rowTokens line = tokensOf part :: rest := by
    rcases hrows : rowTokens line with _ | ⟨tokens, rest⟩
    · rw [hrows] at hfirst
      cases hfirst
    · rw [hrows] at hfirst
      exact ⟨rest, by rw [Option.some.inj hfirst]⟩
  have hfits : 0 + rowLength (rowPrefix line) (tokensOf part) ≤ (rowLimits line.length).drop := by
    have hjoin := length_joinSpace_tokensOf part
    have hprefix := length_rowPrefix_add_le hrest
    have hdrop := length_le_drop line.length
    rw [rowLength, rowOfTokens, List.length_append]
    omega
  rw [keptRowTokens, hrows, within, if_neg (Nat.not_lt.mpr hfits)]
  exact List.cons_ne_nil _ _

/-- A plain line has a part for each row. -/
theorem partsOf_plain {line : Str} (h : PlainLine line) :
    partsOf line = (restOf line).splitOn pipe := by
  rw [partsOf, List.filter_eq_self]
  intro part hpart
  refine decide_eq_true fun hnil => h.tokens part hpart ?_
  rw [hnil]
  decide

theorem ownTokens_of_not_mem {line : Str} (h : PlainLine line) (hpipe : pipe ∉ restOf line) :
    ownTokens line = [tokensOf (restOf line)] := by
  rw [ownTokens, partsOf_plain h, List.splitOn_eq_singleton hpipe]
  rfl

/-- The only row of a line is the line. -/
theorem rowTokens_of_not_mem {line : Str} (h : PlainLine line) (hpipe : pipe ∉ restOf line) :
    rowTokens line = [tokensOf (restOf line)] := by
  have hown := ownTokens_of_not_mem h hpipe
  have hinherited : inheritedTokens [] (ownTokens line) = ownTokens line := by
    rw [hown, inheritedTokens, resolveRow_nil, inheritedTokens]
  rw [rowTokens, hinherited, List.take_append_drop, hown]

theorem parseCommand_line {line : Str} (h : PlainLine line) (hpipe : pipe ∉ restOf line)
    (hstart : line.head? ≠ some space) :
    parseCommand line = some ⟨headName line, tokenParams (tokensOf (restOf line))⟩ := by
  have hpart : restOf line ∈ (restOf line).splitOn pipe := by
    rw [List.splitOn_eq_singleton hpipe]
    exact List.mem_singleton_self _
  have htokens := h.tokens _ hpart
  by_cases hname : headName line = []
  · have hrest := restOf_of_nameless hname
    rw [hrest] at hpart htokens ⊢
    obtain ⟨first, rest, hsplit⟩ := List.exists_cons_of_ne_nil (List.splitOn_ne_nil space line)
    have hfirst : first ≠ [] := by
      rintro rfl
      refine hstart ?_
      have hjoin : [space].intercalate (line.splitOn space) = line :=
        List.intercalate_splitOn space
      rw [hsplit] at hjoin
      rcases rest with _ | ⟨word, rest⟩
      · rw [List.intercalate_singleton] at hjoin
        exact absurd (hjoin ▸ rfl : tokensOf line = []) htokens
      · rw [List.intercalate_cons_cons] at hjoin
        rw [← hjoin]
        rfl
    have hmem : first ∈ tokensOf line := by
      rw [tokensOf, hsplit]
      exact List.mem_filter.mpr ⟨List.mem_cons_self, decide_eq_true hfirst⟩
    have hplain := h.plain line (by rw [hrest]; exact hpart) first hmem
    rw [parseCommand_nameless hsplit hfirst (fun c => hplain.isPrintable) hplain.not_commandName,
      hname]
  · have hline := (line_eq_named hname).resolve_left fun hnone => htokens (by rw [hnone.2]; decide)
    calc parseCommand line
        = parseCommand (headName line ++ space :: restOf line) := by rw [← hline]
      _ = some ⟨headName line, tokenParams (tokensOf (restOf line))⟩ := by
        rw [parseCommand_named (isCommandName_headName hname), foldl_readToken_splitOn]

/-- **Each row is read as its tokens.** -/
theorem parseCommand_getElem? {line : Str} (h : PlainLine line)
    (hstart : pipe ∈ restOf line ∨ line.head? ≠ some space) {i : Nat} {row : Str}
    (hrow : (splitCommandRows line)[i]? = some row) :
    ∃ tokens, (rowTokens line)[i]? = some tokens ∧
      parseCommand row = some ⟨headName line, tokenParams tokens⟩ := by
  by_cases hpipe : pipe ∈ restOf line
  · have hkept : keptRowTokens line ≠ [] := keptRowTokens_ne_nil (by
      rw [partsOf_plain h]
      exact List.splitOn_ne_nil _ _)
    rw [splitCommandRows_eq hpipe, if_neg hkept, List.getElem?_map] at hrow
    obtain ⟨tokens, htokens, rfl⟩ := Option.map_eq_some_iff.mp hrow
    have hget : (rowTokens line)[i]? = some tokens := getElem?_of_within htokens
    exact ⟨tokens, hget, parseCommand_rowTokens h (List.mem_of_getElem? hget)⟩
  · rw [splitCommandRows_of_not_mem hpipe] at hrow
    rcases i with _ | i
    · obtain rfl := Option.some.inj hrow
      refine ⟨_, ?_, parseCommand_line h hpipe (hstart.resolve_left hpipe)⟩
      rw [rowTokens_of_not_mem h hpipe]
      rfl
    · cases hrow

/-- The parameters of a row, as they are read. -/
def rowParams (line : Str) (i : Nat) : Option Params :=
  ((splitCommandRows line)[i]?.bind parseCommand).map Command.params

/-- What is promised of the rows of a plain line. -/
structure RowsInherit (line : Str) : Prop where
  /-- The rows are the first parts of the line, in order. -/
  length_le : (splitCommandRows line).length ≤ (ownTokens line).length
  /-- A part is left out only where its row would pass the limit. -/
  stops : ∀ tokens, (rowTokens line)[(splitCommandRows line).length]? = some tokens →
    (rowLimits line.length).drop <
      ((splitCommandRows line).map List.length).sum + rowLength (rowPrefix line) tokens
  /-- Rows stop inheriting only where one would pass the limit for that. -/
  stops_inheriting : ∀ tokens,
    (inheritedTokens [] (ownTokens line))[inheriting line]? = some tokens →
      (rowLimits line.length).inherit <
        (((rowTokens line).take (inheriting line)).map (rowLength (rowPrefix line))).sum +
          rowLength (rowPrefix line) tokens
  name : ∀ row ∈ splitCommandRows line,
    (parseCommand row).map Command.name = some (headName line)
  own_kept : ∀ i tokens params, (ownTokens line)[i]? = some tokens →
    rowParams line i = some params →
      ∀ k v, (tokenParams tokens).get? k = some v → params.get? k = some v
  own_alone : ∀ i tokens params, (ownTokens line)[i]? = some tokens →
    rowParams line i = some params → i = 0 ∨ inheriting line ≤ i →
      ∀ k, params.get? k = (tokenParams tokens).get? k
  overrides : ∀ i tokens before params, (ownTokens line)[i + 1]? = some tokens →
    rowParams line i = some before → rowParams line (i + 1) = some params →
      i + 1 < inheriting line →
        ∀ k, params.get? k = ((tokenParams tokens).get? k).or (before.get? k)

/-- A row is read as its tokens: what `rowParams` gives. -/
theorem rowParams_eq {line : Str} (h : PlainLine line)
    (hstart : pipe ∈ restOf line ∨ line.head? ≠ some space) {i : Nat} {params : Params}
    (hparams : rowParams line i = some params) :
    ∃ tokens, (rowTokens line)[i]? = some tokens ∧ params = tokenParams tokens := by
  rw [rowParams, Option.map_eq_some_iff] at hparams
  obtain ⟨cmd, hcmd, rfl⟩ := hparams
  obtain ⟨row, hrow, hcmd⟩ := Option.bind_eq_some_iff.mp hcmd
  obtain ⟨tokens, htokens, hparse⟩ := parseCommand_getElem? h hstart hrow
  refine ⟨tokens, htokens, ?_⟩
  rw [hparse, Option.some.injEq] at hcmd
  rw [← hcmd]

theorem length_splitCommandRows {line : Str} (h : PlainLine line) :
    (splitCommandRows line).length = (keptRowTokens line).length ∧
      ((splitCommandRows line).length = (rowTokens line).length ∨
        ((splitCommandRows line).map List.length).sum =
          ((keptRowTokens line).map (rowLength (rowPrefix line))).sum) := by
  have hkept : keptRowTokens line ≠ [] := keptRowTokens_ne_nil (by
    rw [partsOf_plain h]
    exact List.splitOn_ne_nil _ _)
  by_cases hpipe : pipe ∈ restOf line
  · rw [splitCommandRows_eq hpipe, if_neg hkept, List.length_map, sum_map_rowOfTokens]
    exact ⟨rfl, Or.inr rfl⟩
  · have hle : (keptRowTokens line).length ≤ (rowTokens line).length := length_within_le
    have hpos := List.length_pos_iff.mpr hkept
    rw [splitCommandRows_of_not_mem hpipe]
    rw [rowTokens_of_not_mem h hpipe] at hle ⊢
    simp only [List.length_singleton] at hle ⊢
    exact ⟨by omega, Or.inl trivial⟩

/-- Row `i + 1` inherits from row `i` while inheritance lasts. -/
theorem rowTokens_succ {line : Str} {i : Nat} {before tokens : List Str}
    (hi : i + 1 < inheriting line) (hbefore : (rowTokens line)[i]? = some before)
    (htokens : (ownTokens line)[i + 1]? = some tokens) :
    (rowTokens line)[i + 1]? = some (resolveRow (lastPerField before) tokens) := by
  rw [getElem?_rowTokens_of_lt (by omega)] at hbefore
  rw [getElem?_rowTokens_of_lt hi]
  exact getElem?_inheritedTokens_succ hbefore htokens

theorem rowTokens_alone {line : Str} {i : Nat} {tokens : List Str}
    (hi : i = 0 ∨ inheriting line ≤ i) (htokens : (ownTokens line)[i]? = some tokens) :
    (rowTokens line)[i]? = some tokens := by
  by_cases hle : inheriting line ≤ i
  · rw [getElem?_rowTokens_of_le hle, htokens]
  · obtain rfl := hi.resolve_right hle
    rw [getElem?_rowTokens_of_lt (Nat.not_le.mp hle), getElem?_inheritedTokens_zero htokens]

/-- **The rows of a plain line, read**: of a line that has a pipe, or does not start with
a space. -/
theorem rows_inherit {line : Str} (h : PlainLine line)
    (hstart : pipe ∈ restOf line ∨ line.head? ≠ some space) : RowsInherit line := by
  have hown := ownTokens_plain h
  have hplain : ∀ i tokens, (ownTokens line)[i]? = some tokens →
      ∀ token ∈ tokens, PlainToken token := fun i tokens hget token hmem =>
    ((hown tokens (List.mem_of_getElem? hget)).2 token hmem).1
  have hrow : ∀ i tokens, (rowTokens line)[i]? = some tokens → ∀ token ∈ tokens, PlainToken token :=
    fun i tokens hget token hmem => (forall_mem_rowTokens (fun tokens hmem => (hown tokens hmem).2)
      tokens (List.mem_of_getElem? hget) token hmem).1
  obtain ⟨hlength, hsum⟩ := length_splitCommandRows h
  have hrows : (rowTokens line).length = (ownTokens line).length := by
    rw [length_rowTokens, ownTokens, List.length_map]
  have halone : ∀ i tokens params, (ownTokens line)[i]? = some tokens →
      rowParams line i = some params → i = 0 ∨ inheriting line ≤ i →
        ∀ k, params.get? k = (tokenParams tokens).get? k := by
    intro i tokens params hget hparams hi k
    obtain ⟨tokens', hget', rfl⟩ := rowParams_eq h hstart hparams
    rw [rowTokens_alone hi hget] at hget'
    rw [Option.some.inj hget']
  have hover : ∀ i tokens before params, (ownTokens line)[i + 1]? = some tokens →
      rowParams line i = some before → rowParams line (i + 1) = some params →
        i + 1 < inheriting line →
          ∀ k, params.get? k = ((tokenParams tokens).get? k).or (before.get? k) := by
    intro i tokens before params hget hbefore hparams hi k
    obtain ⟨previous, hprevious, rfl⟩ := rowParams_eq h hstart hbefore
    obtain ⟨tokens', hget', rfl⟩ := rowParams_eq h hstart hparams
    rw [rowTokens_succ hi hprevious hget] at hget'
    rw [← Option.some.inj hget']
    exact get?_tokenParams_resolveRow (hrow i previous hprevious) (hplain _ tokens hget) k
  refine ⟨?_, ?_, ?_, ?_, ?_, halone, hover⟩
  · rw [hlength, ← hrows]
    exact length_within_le
  · intro tokens hget
    rcases hsum with hall | hsum
    · rw [hall, List.getElem?_eq_none (Nat.le_refl _)] at hget
      cases hget
    · rw [hsum]
      rw [hlength] at hget
      have := limit_lt_of_within hget
      rwa [Nat.zero_add] at this
  · intro tokens hget
    have htake : (rowTokens line).take (inheriting line) =
        (inheritedTokens [] (ownTokens line)).take (inheriting line) := by
      rw [rowTokens, List.take_append_of_le_length, List.take_take, Nat.min_self]
      rw [List.length_take, length_inheritedTokens]
      exact Nat.le_min.mpr ⟨Nat.le_refl _, inheriting_le line⟩
    have := limit_lt_of_within hget
    rw [Nat.zero_add, ← take_length_within] at this
    rw [htake]
    exact this
  · intro row hmem
    obtain ⟨i, hi⟩ := List.mem_iff_getElem?.mp hmem
    obtain ⟨tokens, -, hparse⟩ := parseCommand_getElem? h hstart hi
    rw [hparse]
    rfl
  · intro i tokens params hget hparams k v hv
    by_cases hi : i = 0 ∨ inheriting line ≤ i
    · rw [halone i tokens params hget hparams hi k, hv]
    · rw [not_or, Nat.not_le] at hi
      obtain ⟨j, rfl⟩ := Nat.exists_eq_succ_of_ne_zero hi.1
      -- the row before is kept as this one is, and so is read
      obtain ⟨tokens', hget', rfl⟩ := rowParams_eq h hstart hparams
      have hlt : j < (rowTokens line).length := by
        have := (List.getElem?_eq_some_iff.mp hget').1
        omega
      have hprevious := List.getElem?_eq_getElem hlt
      rw [rowTokens_succ hi.2 hprevious hget] at hget'
      rw [← Option.some.inj hget', get?_tokenParams_resolveRow (hrow j _ hprevious)
        (hplain _ tokens hget), hv, Option.some_or]

/-- A notification whose second row leaves out what has not changed. -/
def twoRows : Str := .of "notifycliententerview cfid=0 ctid=1 clid=7|clid=8 client_nickname=Bob"

theorem rows_inherit_twoRows : RowsInherit twoRows :=
  rows_inherit (by decide) (by decide)

/-- A row that starts with a space is not read at all, where it is the whole of the
line. -/
theorem rows_inherit_space : ¬ ∀ line, PlainLine line → RowsInherit line := by
  intro h
  have hname := (h (.of " a=1") (by decide)).name (.of " a=1") (by decide)
  exact absurd hname (by decide)

end Teamspeak
