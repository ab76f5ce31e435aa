import Teamspeak.Core.Rows.Inherit
import Teamspeak.Core.Rows.Names

/-!
# The return code of a line

`appendReturnCode` of `commands.ts`: the tracker's code goes to the end of a line, which
must not name one itself.  The check reads the line as one row.  The splitter reads it as
several, and a word that follows a pipe is part of a value to the one and a word to the
other.

* `codeOfWords`: the code that is read from words.
* `keepsReturnCode_iff`: the lines no row of which is read with another code.
* `namesNoOther_named`: for a line with a name, those no part of which names one.
-/

namespace Teamspeak.Client

def returnCode : Str := .of "return_code"

/-- `return_code=N`. -/
def codeToken (rc : Nat) : Str := returnCode ++ equalSign :: Str.ofNat rc

/-- The line names a return code itself. -/
def namesReturnCode (cmd : Str) : Bool :=
  (((parseCommand cmd).map Command.params).getD .empty).has returnCode

/-- Append the tracker's return_code to a command. -/
def appendReturnCode (cmd : Str) (rc : Nat) : Except Str Str :=
  if namesReturnCode cmd then
    .error (.of "commands must not carry their own return_code; the client assigns it")
  else .ok (cmd ++ space :: codeToken rc)

/-- No row of the line that is sent is read with a return code other than `rc`. -/
def KeepsReturnCode (cmd : Str) (rc : Nat) : Prop :=
  ∀ line, appendReturnCode cmd rc = .ok line → ∀ row ∈ splitCommandRows line,
    ∀ command, parseCommand row = some command →
      ∀ code, command.params.get? returnCode = some code → code = Str.ofNat rc

/-! ### Codes -/

/-- The return code that words name, the last of them that does. -/
def codeOfWords (words : List Str) : Option Str := ((fields words).get? returnCode).map valueOf

/-- The return code of a row of `words`. -/
def rowCode (line : Str) (words : List Str) : Option Str :=
  if headName line = [] then (readWords words).bind codeOfWords else codeOfWords words

theorem validKey_returnCode : validKey returnCode = true := by decide

/-- Only an escape unescapes to what no key holds. -/
theorem unescape_eq_key {key : Str} (hkey : ∀ c ∈ key, isKeyUnit c = true ∨ c = dash) (s : Str) :
    unescape s = key ↔ s = key := by
  have hbackslash : ¬ (isKeyUnit backslash = true ∨ backslash = dash) := by decide
  have htable : (unescapeTable.all fun e => ¬ (isKeyUnit e.2 = true ∨ e.2 = dash)) = true := by
    decide
  induction s using unescape.induct generalizing key with
  | case1 => exact Iff.rfl
  | case2 c => exact Iff.rfl
  | case3 next s u hu =>
    rw [unescape_escaped hu]
    obtain ⟨before, after, htable', -⟩ := List.lookup_eq_some_iff.mp hu
    have hmem : (next, u) ∈ unescapeTable := by
      rw [htable']
      exact List.mem_append_right _ List.mem_cons_self
    refine iff_of_false ?_ ?_
    · rintro rfl
      exact of_decide_eq_true (List.all_eq_true.mp htable _ hmem) (hkey u List.mem_cons_self)
    · rintro rfl
      exact hbackslash (hkey backslash List.mem_cons_self)
  | case4 next s hnone ih =>
    rw [unescape, if_pos rfl, hnone]
    refine iff_of_false ?_ ?_
    · rintro rfl
      exact hbackslash (hkey backslash List.mem_cons_self)
    · rintro rfl
      exact hbackslash (hkey backslash List.mem_cons_self)
  | case5 c next s hc ih =>
    rw [unescape_cons hc]
    rcases key with _ | ⟨d, key⟩
    · exact iff_of_false (List.cons_ne_nil _ _) (List.cons_ne_nil _ _)
    · have hrest : unescape (next :: s) = key ↔ next :: s = key :=
        ih fun c hmem => hkey c (List.mem_cons_of_mem _ hmem)
      rw [List.cons_eq_cons, List.cons_eq_cons]
      exact and_congr_right fun _ => hrest

/-- A token sets the key it names, and no other that could be a parameter's. -/
theorem get?_readToken {key : Str} (hkey : validKey key = true) (params : Params) (token : Str) :
    (readToken params token).get? key =
      if fieldName token = key then some (valueOf token) else params.get? key := by
  have hunits : ∀ c ∈ key, isKeyUnit c = true ∨ c = dash := fun c hc => keyUnit_of_mem hkey hc
  have hne := ne_nil_of_validKey hkey
  rw [readToken]
  by_cases htoken : token = []
  · subst htoken
    rw [if_pos rfl, if_neg fun h => hne h.symm]
  rw [if_neg htoken]
  unfold fieldName valueOf
  cases hidx : token.idxOf? equalSign with
  | none =>
    dsimp only
    rw [InsertionMap.get?_set]
    simp only [unescape_eq_key hunits]
  | some i =>
    dsimp only
    rw [InsertionMap.get?_set]
    simp only [unescape_eq_key hunits]
    cases i with
    | succ i => rfl
    | zero =>
      have hequal : token ≠ key := by
        rintro rfl
        exact equalSign_not_mem_key hkey (mem_of_idxOf? hidx)
      rw [List.take_zero, if_neg fun h => hne h.symm, if_neg hequal]

theorem get?_fields_cons (token : Str) (tokens : List Str) (key : Str) :
    (fields (token :: tokens)).get? key =
      ((fields tokens).get? key).or (if fieldName token = key then some token else none) := by
  rw [fields, List.map_cons, InsertionMap.setAll_cons, InsertionMap.get?_setAll,
    InsertionMap.get?_set]
  rfl

/-- **A key is read by its field.** -/
theorem get?_foldl_readToken {key : Str} (hkey : validKey key = true) (tokens : List Str)
    (params : Params) : (tokens.foldl readToken params).get? key =
      (((fields tokens).get? key).map valueOf).or (params.get? key) := by
  induction tokens generalizing params with
  | nil => rfl
  | cons token tokens ih =>
    rw [List.foldl_cons, ih, get?_readToken hkey, get?_fields_cons]
    cases (fields tokens).get? key with
    | some other => rfl
    | none =>
      rw [Option.map_none, Option.none_or, Option.none_or]
      split
      · rfl
      · rfl

theorem escape_ofNat (n : Nat) : escape (Str.ofNat n) = Str.ofNat n := by
  have hplain : ∀ e ∈ escapeMap, Str.isDigit e.1 = false := by decide
  apply escape_of_plain
  rintro c hc e he rfl
  exact absurd (hplain e he ▸ Str.isDigit_of_mem_ofNat hc) Bool.false_ne_true

/-- The token is the one a parameter would be written as. -/
theorem codeToken_eq (rc : Nat) : codeToken rc = paramToken (returnCode, Str.ofNat rc) := by
  have hflag : isFlag returnCode = false := by decide
  rw [paramToken, if_neg fun h => Bool.false_ne_true (hflag ▸ h.1), escape_key validKey_returnCode,
    escape_ofNat]
  rfl

theorem fieldName_codeToken (rc : Nat) : fieldName (codeToken rc) = returnCode := by
  rw [codeToken_eq]
  exact fieldName_paramToken validKey_returnCode

theorem valueOf_codeToken (rc : Nat) : valueOf (codeToken rc) = Str.ofNat rc := by
  rw [codeToken, valueOf, idxOf?_append_cons (equalSign_not_mem_key validKey_returnCode)]
  show unescape (List.drop _ _) = _
  rw [List.drop_append, List.drop_eq_nil_of_le (Nat.le_succ _), List.nil_append,
    Nat.add_sub_cancel_left, List.drop_one, List.tail_cons, ← escape_ofNat, unescape_escape,
    escape_ofNat]

theorem separator_not_mem_codeToken {sep : UInt16} (hsep : sep ∈ [space, pipe]) (rc : Nat) :
    sep ∉ codeToken rc := by
  rw [codeToken_eq]
  exact separator_not_mem_paramToken hsep _

/-! ### The words of a row -/

/-- The code at the end of a row is the one it is read with. -/
theorem codeOfWords_concat (words : List Str) (rc : Nat) :
    codeOfWords (words ++ [codeToken rc]) = some (Str.ofNat rc) := by
  rw [codeOfWords, fields, List.map_append, InsertionMap.setAll_append, List.map_singleton,
    InsertionMap.setAll_cons, InsertionMap.setAll_nil]
  dsimp only
  rw [fieldName_codeToken, InsertionMap.get?_set_self, Option.map_some, valueOf_codeToken]

theorem readWords_concat {words read : List Str} {rc : Nat}
    (h : readWords (words ++ [codeToken rc]) = some read) :
    ∃ before, read = before ++ [codeToken rc] := by
  rcases words with _ | ⟨word, words⟩
  · exact ⟨[], (Option.some.inj h).symm⟩
  · rw [List.cons_append, readWords] at h
    · split at h
      · exact ⟨skipUnprintable word :: words, (Option.some.inj h).symm⟩
      · cases h
    · exact fun hnil => List.append_ne_nil_of_right_ne_nil _ (List.cons_ne_nil _ _) hnil

theorem code_readWords_concat {words : List Str} {rc : Nat} {code : Str}
    (h : (readWords (words ++ [codeToken rc])).bind codeOfWords = some code) :
    code = Str.ofNat rc := by
  obtain ⟨read, hread, hcode⟩ := Option.bind_eq_some_iff.mp h
  obtain ⟨before, rfl⟩ := readWords_concat hread
  rw [codeOfWords_concat] at hcode
  exact (Option.some.inj hcode).symm

/-- A name is no return code. -/
theorem get?_commandOfWords (words : List Str) :
    (commandOfWords words).params.get? returnCode = codeOfWords words := by
  have hunderscore : Str.isAlphanumeric (unit '_') = false := by decide
  have hmem : unit '_' ∈ returnCode := by decide
  rw [commandOfWords]
  dsimp only
  rw [get?_foldl_readToken validKey_returnCode, InsertionMap.get?_empty, Option.or_none]
  rcases words with _ | ⟨word, words⟩
  · rfl
  rw [List.headD_cons]
  by_cases hname : isCommandName word = true
  · have hfield : fieldName word ≠ returnCode := by
      intro hfield
      have hword := (fieldName_isPrefix word).subset (hfield ▸ hmem)
      rw [alphanumeric_of_mem hname hword] at hunderscore
      cases hunderscore
    rw [if_pos hname, if_neg (ne_nil_of_isCommandName hname), List.drop_one, List.tail_cons,
      codeOfWords, get?_fields_cons, if_neg hfield, Option.or_none]
  · rw [if_neg hname, if_pos rfl, List.drop_zero]
    rfl

/-- **The code that a row is read with.** -/
theorem code_row {line : Str} {words : List Str} (h : ∀ word ∈ words, space ∉ word) :
    (parseCommand (rowOfTokens (rowPrefix line) words)).bind (·.params.get? returnCode) =
      rowCode line words := by
  rw [rowCode]
  by_cases hname : headName line = []
  · rw [if_pos hname, rowOfTokens, rowPrefix_of_nameless hname, List.nil_append]
    rcases words with _ | ⟨word, words⟩
    · rfl
    · rw [parseCommand_eq, splitOn_joinSpace (List.cons_ne_nil _ _) h, Option.bind_map]
      exact congrArg _ (funext get?_commandOfWords)
  · rw [if_neg hname, rowOfTokens, rowPrefix_of_named hname, List.append_assoc,
      List.singleton_append, parseCommand_named (isCommandName_headName hname), Option.bind_some,
      get?_foldl_readToken validKey_returnCode, InsertionMap.get?_empty, Option.or_none]
    rcases words with _ | ⟨word, words⟩
    · decide
    · rw [splitOn_joinSpace (List.cons_ne_nil _ _) h]
      rfl

/-! ### The line that is sent -/

/-- The line with its return code. -/
def sentLine (cmd : Str) (rc : Nat) : Str := cmd ++ space :: codeToken rc

theorem splitOn_append_of_not_mem {c : UInt16} {text : Str} (h : c ∉ text) (s : Str) :
    ∃ init last, (s ++ text).splitOn c = init ++ [last ++ text] := by
  induction s with
  | nil => exact ⟨[], [], List.splitOn_eq_singleton h⟩
  | cons d s ih =>
    obtain ⟨init, last, hsplit⟩ := ih
    rw [List.cons_append, List.splitOn_cons_eq_if_modifyHead, hsplit]
    split
    · exact ⟨[] :: init, last, rfl⟩
    · rcases init with _ | ⟨first, init⟩
      · exact ⟨[], d :: last, rfl⟩
      · exact ⟨(d :: first) :: init, last, rfl⟩

/-- What follows the name of the line that is sent ends in the code, after a space. -/
theorem restOf_sentLine {cmd : Str} {rc : Nat} (hpipe : pipe ∈ restOf (sentLine cmd rc)) :
    ∃ s, restOf (sentLine cmd rc) = s ++ space :: codeToken rc := by
  have htoken : pipe ∉ space :: codeToken rc := by
    rw [List.mem_cons, not_or]
    exact ⟨by decide, separator_not_mem_codeToken (by decide) rc⟩
  by_cases hname : headName (sentLine cmd rc) = []
  · exact ⟨cmd, restOf_of_nameless hname⟩
  have hline := (line_eq_named hname).resolve_left fun h => by
    rw [h.2] at hpipe
    cases hpipe
  have hrest : space :: restOf (sentLine cmd rc) <:+ sentLine cmd rc :=
    ⟨headName (sentLine cmd rc), hline.symm⟩
  have hcode : space :: codeToken rc <:+ sentLine cmd rc := ⟨cmd, rfl⟩
  rcases List.suffix_or_suffix_of_suffix hcode hrest with h | h
  · rcases List.suffix_cons_iff.mp h with heq | ⟨s, hs⟩
    · rw [heq] at htoken
      exact absurd (List.mem_cons_of_mem _ hpipe) htoken
    · exact ⟨s, hs.symm⟩
  · exact absurd (h.subset (List.mem_cons_of_mem _ hpipe)) htoken

/-- The last part of the line ends in the code. -/
theorem ownTokens_sentLine {cmd : Str} {rc : Nat} (hpipe : pipe ∈ restOf (sentLine cmd rc)) :
    ∃ init words, ownTokens (sentLine cmd rc) = init ++ [words ++ [codeToken rc]] := by
  have htoken : pipe ∉ space :: codeToken rc := by
    rw [List.mem_cons, not_or]
    exact ⟨by decide, separator_not_mem_codeToken (by decide) rc⟩
  have hspace : space ∉ codeToken rc := separator_not_mem_codeToken (by decide) rc
  obtain ⟨s, hs⟩ := restOf_sentLine hpipe
  obtain ⟨init, last, hsplit⟩ := splitOn_append_of_not_mem htoken s
  have hlast : tokensOf (last ++ space :: codeToken rc) = tokensOf last ++ [codeToken rc] := by
    rw [tokensOf, List.splitOn_append_cons_self, List.splitOn_eq_singleton hspace,
      List.filter_append, tokensOf]
    rfl
  have hkept : [last ++ space :: codeToken rc].filter (fun part => part ≠ []) =
      [last ++ space :: codeToken rc] := by
    rw [List.filter_eq_self]
    intro part hpart
    rw [List.mem_singleton.mp hpart]
    exact decide_eq_true (List.append_ne_nil_of_right_ne_nil _ (List.cons_ne_nil _ _))
  refine ⟨(init.filter fun part => part ≠ []).map tokensOf, tokensOf last, ?_⟩
  rw [ownTokens, partsOf, hs, hsplit, List.filter_append, List.map_append, ← hlast, hkept]
  rfl

/-- No row of the line that is sent, but for that of its last part, names another return
code where it is read; or the line is refused. -/
def NamesNoOther (cmd : Str) (rc : Nat) : Prop :=
  namesReturnCode cmd = true ∨
    ∀ i < (keptRowTokens (sentLine cmd rc)).length, i + 1 < (partsOf (sentLine cmd rc)).length →
      ∀ code, rowCode (sentLine cmd rc) (rowWords (sentLine cmd rc) i) = some code →
        code = Str.ofNat rc

/-- The words of a part. -/
def partWords (line : Str) (i : Nat) : List Str := (ownTokens line).getD i []

theorem getElem?_ownTokens {line : Str} {i : Nat} (hi : i < (partsOf line).length) :
    (ownTokens line)[i]? = some (partWords line i) := by
  have hlen : i < (ownTokens line).length := by rwa [ownTokens, List.length_map]
  rw [partWords, List.getD_eq_getElem?_getD, List.getElem?_eq_getElem hlen]
  rfl

/-- A row has the code of its own part, or else that of the row before. -/
theorem codeOfWords_rowWords {line : Str} {i : Nat} (hi : i < (partsOf line).length) {code : Str}
    (hcode : codeOfWords (rowWords line i) = some code) :
    ∃ j ≤ i, codeOfWords (partWords line j) = some code := by
  have hown := getElem?_ownTokens hi
  induction i with
  | zero =>
    have hwords := (getElem?_rowTokens hi).symm.trans (rowTokens_alone (Or.inl rfl) hown)
    rw [Option.some.inj hwords] at hcode
    exact ⟨0, Nat.le_refl 0, hcode⟩
  | succ i ih =>
    rcases Nat.lt_or_ge (i + 1) (inheriting line) with hinherits | hinherits
    · have hbefore := getElem?_rowTokens (Nat.lt_of_succ_lt hi)
      have hwords := (getElem?_rowTokens hi).symm.trans (rowTokens_succ hinherits hbefore hown)
      rw [Option.some.inj hwords, codeOfWords, get?_fields_resolveRow] at hcode
      cases hget : (fields (partWords line (i + 1))).get? returnCode with
      | some token =>
        rw [hget, Option.some_or] at hcode
        exact ⟨i + 1, Nat.le_refl _, by rw [codeOfWords, hget, hcode]⟩
      | none =>
        rw [hget, Option.none_or] at hcode
        obtain ⟨j, hj, hcode⟩ := ih (Nat.lt_of_succ_lt hi) hcode
          (getElem?_ownTokens (Nat.lt_of_succ_lt hi))
        exact ⟨j, Nat.le_succ_of_le hj, hcode⟩
    · have hwords := (getElem?_rowTokens hi).symm.trans (rowTokens_alone (Or.inr hinherits) hown)
      rw [Option.some.inj hwords] at hcode
      exact ⟨i + 1, Nat.le_refl _, hcode⟩

theorem codeOfWords_partWords {line : Str} {i : Nat} {code : Str}
    (hcode : codeOfWords (partWords line i) = some code) :
    codeOfWords (rowWords line i) = some code := by
  rw [rowWords]
  split
  · rw [codeOfWords, resolveRow, fields, List.map_append, InsertionMap.setAll_append,
      InsertionMap.get?_setAll]
    rw [codeOfWords, Option.map_eq_some_iff] at hcode
    obtain ⟨token, hget, hvalue⟩ := hcode
    rw [fields, partWords] at hget
    rw [hget, Option.some_or, Option.map_some, hvalue]
  · exact hcode

/-- For a line with a name it is the parts themselves that must name no other. -/
theorem namesNoOther_named {cmd : Str} {rc : Nat} (hname : headName (sentLine cmd rc) ≠ []) :
    NamesNoOther cmd rc ↔ namesReturnCode cmd = true ∨
      ∀ i < (keptRowTokens (sentLine cmd rc)).length, i + 1 < (partsOf (sentLine cmd rc)).length →
        ∀ code, codeOfWords (partWords (sentLine cmd rc) i) = some code → code = Str.ofNat rc := by
  refine or_congr_right ⟨fun h i hi hlast code hcode => ?_, fun h i hi hlast code hcode => ?_⟩
  · exact h i hi hlast code ((if_neg hname).trans (codeOfWords_partWords hcode))
  · obtain ⟨j, hj, hcode⟩ := codeOfWords_rowWords (Nat.lt_of_succ_lt hlast)
      ((if_neg hname).symm.trans hcode)
    exact h j (hj.trans_lt hi) (by omega) code hcode

/-- The row of the last part has the code that was appended. -/
theorem rowCode_last {cmd : Str} {rc : Nat} (hpipe : pipe ∈ restOf (sentLine cmd rc)) {i : Nat}
    (hi : i + 1 = (partsOf (sentLine cmd rc)).length) {code : Str}
    (hcode : rowCode (sentLine cmd rc) (rowWords (sentLine cmd rc) i) = some code) :
    code = Str.ofNat rc := by
  obtain ⟨init, words, hown⟩ := ownTokens_sentLine hpipe
  have hlen : i = init.length := by
    have hparts : (ownTokens (sentLine cmd rc)).length = (partsOf (sentLine cmd rc)).length :=
      List.length_map _
    rw [hown, List.length_append, List.length_singleton] at hparts
    omega
  have hlast : (ownTokens (sentLine cmd rc)).getD i [] = words ++ [codeToken rc] := by
    rw [hown, hlen, List.getD_eq_getElem?_getD, List.getElem?_concat_length]
    rfl
  obtain ⟨before, hwords⟩ : ∃ before, rowWords (sentLine cmd rc) i = before ++ [codeToken rc] := by
    rw [rowWords, hlast]
    split
    · exact ⟨_, (List.append_assoc _ _ _).symm⟩
    · exact ⟨words, rfl⟩
  rw [hwords, rowCode] at hcode
  split at hcode
  · exact code_readWords_concat hcode
  · rw [codeOfWords_concat] at hcode
    exact (Option.some.inj hcode).symm

/-- A line that is one row has the code that was appended. -/
theorem code_sentLine {cmd : Str} {rc : Nat} {code : Str}
    (h : (parseCommand (sentLine cmd rc)).bind (·.params.get? returnCode) = some code) :
    code = Str.ofNat rc := by
  have hsplit : (sentLine cmd rc).splitOn space = cmd.splitOn space ++ [codeToken rc] := by
    rw [sentLine, List.splitOn_append_cons_self,
      List.splitOn_eq_singleton (separator_not_mem_codeToken (by decide) rc)]
  rw [parseCommand_eq, hsplit, Option.bind_map] at h
  refine code_readWords_concat ((congrArg _ (funext fun words => ?_)).trans h)
  exact (get?_commandOfWords words).symm

/-- **No row of a line is read with another code** just when none before the last names one
that the check did not see. -/
theorem keepsReturnCode_iff (cmd : Str) (rc : Nat) :
    KeepsReturnCode cmd rc ↔ NamesNoOther cmd rc := by
  by_cases hnames : namesReturnCode cmd = true
  · refine iff_of_true (fun line hline => ?_) (Or.inl hnames)
    rw [appendReturnCode, if_pos hnames] at hline
    cases hline
  have hsent : appendReturnCode cmd rc = .ok (sentLine cmd rc) := if_neg hnames
  by_cases hpipe : pipe ∈ restOf (sentLine cmd rc)
  swap
  · refine iff_of_true (fun line hline row hrow command hcommand code hcode => ?_)
      (Or.inr fun i _ hi => ?_)
    · rw [hsent] at hline
      obtain rfl := Except.ok.inj hline
      rw [splitCommandRows_of_not_mem hpipe, List.mem_singleton] at hrow
      subst hrow
      exact code_sentLine (Option.bind_eq_some_iff.mpr ⟨command, hcommand, hcode⟩)
    · have hparts : (partsOf (sentLine cmd rc)).length ≤ 1 := by
        rw [partsOf, List.splitOn_eq_singleton hpipe]
        exact List.length_filter_le _ _
      omega
  have hread : ∀ i < (keptRowTokens (sentLine cmd rc)).length,
      (parseCommand (rowOfTokens (rowPrefix (sentLine cmd rc))
        (rowWords (sentLine cmd rc) i))).bind (·.params.get? returnCode) =
        rowCode (sentLine cmd rc) (rowWords (sentLine cmd rc) i) := fun i hi =>
    code_row (space_not_mem_rowTokens _ _ (List.mem_of_getElem?
      (getElem?_rowTokens (hi.trans_le (keptRowTokens_length_le _)))))
  have hkept : keptRowTokens (sentLine cmd rc) ≠ [] := by
    obtain ⟨init, words, hown⟩ := ownTokens_sentLine hpipe
    refine keptRowTokens_ne_nil fun hnil => ?_
    rw [ownTokens, hnil] at hown
    exact List.append_ne_nil_of_right_ne_nil _ (List.cons_ne_nil _ _) hown.symm
  have hrows := splitCommandRows_eq hpipe
  rw [if_neg hkept] at hrows
  constructor
  · intro hkeeps
    refine Or.inr fun i hi _ code hcode => ?_
    have hmem : rowOfTokens (rowPrefix (sentLine cmd rc)) (rowWords (sentLine cmd rc) i) ∈
        splitCommandRows (sentLine cmd rc) := by
      rw [hrows]
      exact List.mem_map_of_mem (List.mem_of_getElem? (getElem?_keptRowTokens hi))
    rw [← hread i hi] at hcode
    obtain ⟨command, hcommand, hget⟩ := Option.bind_eq_some_iff.mp hcode
    exact hkeeps _ hsent _ hmem command hcommand code hget
  · intro hnone line hline row hrow command hcommand code hget
    rw [hsent] at hline
    obtain rfl := Except.ok.inj hline
    rw [hrows] at hrow
    obtain ⟨tokens, htokens, rfl⟩ := List.mem_map.mp hrow
    obtain ⟨i, hi⟩ := List.mem_iff_getElem?.mp htokens
    have hlt := (List.getElem?_eq_some_iff.mp hi).1
    obtain rfl : rowWords (sentLine cmd rc) i = tokens :=
      Option.some.inj ((getElem?_keptRowTokens hlt).symm.trans hi)
    have hcode := (hread i hlt).symm.trans (Option.bind_eq_some_iff.mpr ⟨command, hcommand, hget⟩)
    rcases Nat.lt_or_ge (i + 1) (partsOf (sentLine cmd rc)).length with hlast | hlast
    · exact hnone.resolve_left hnames i hlt hlast code hcode
    · have := keptRowTokens_length_le (sentLine cmd rc)
      exact rowCode_last hpipe (by omega) hcode

/-- Three rows, the second of which names a return code. -/
def codeInRow : CommandRequest where
  command := .of "clientkick"
  params := [(.of "reasonid", .string (.of "5"))]
  rows := [[(.of "clid", .string (.of "1"))], [(.of "return_code", .string (.of "9"))],
    [(.of "clid", .string (.of "2"))]]

/-- It is sent with that code. -/
theorem keepsReturnCode_codeInRow :
    ∃ cmd, encodeRequest codeInRow id = .ok cmd ∧ ¬ KeepsReturnCode cmd 3 := by
  refine ⟨.of "clientkick reasonid=5 clid=1|return_code=9|clid=2", by decide +kernel, fun h => ?_⟩
  have hcode := h (.of "clientkick reasonid=5 clid=1|return_code=9|clid=2 return_code=3")
    (by decide +kernel) (.of "clientkick reasonid=5 clid=1 return_code=9") (by decide +kernel)
    { name := .of "clientkick"
      params := .setAll .empty [(.of "reasonid", .of "5"), (.of "clid", .of "1"),
        (.of "return_code", .of "9")] }
    (by decide +kernel) (.of "9") (by decide +kernel)
  exact absurd hcode (by decide +kernel)

end Teamspeak.Client
